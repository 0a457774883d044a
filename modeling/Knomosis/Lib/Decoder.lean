import Mathlib.Tactic

/-!
# Decoders

A decoder takes what it needs from the front of a stream and leaves the rest.
`Decodes d w a` says that it takes the word `w` from every stream that begins
with `w`, whatever follows, and gives `a`.  Words with this property delimit
themselves: two streams that begin with such words and are equal carry the same
value and leave the same rest.
-/

namespace Knomosis.Lib

abbrev Decoder (ε τ : Type) := StateT (List τ) (Except ε)

section Words

variable {ε τ α β : Type}

def Decodes (d : Decoder ε τ α) (w : List τ) (a : α) : Prop := ∀ rest, d (w ++ rest) = .ok (a, rest)

namespace Decodes

variable {d : Decoder ε τ α} {f : α → Decoder ε τ β} {w v : List τ} {a : α} {b : β}

theorem pure (a : α) : Decodes (pure a : Decoder ε τ α) [] a := fun _ => rfl

theorem bind (hd : Decodes d w a) (hf : Decodes (f a) v b) : Decodes (d >>= f) (w ++ v) b := by
  intro rest
  change (d (w ++ v ++ rest) >>= fun p => f p.1 p.2) = _
  rw [List.append_assoc, hd (v ++ rest)]
  exact hf rest

/-- A last computation that takes nothing more. -/
theorem bind_last (hd : Decodes d w a) (hf : Decodes (f a) [] b) : Decodes (d >>= f) w b := by
  have h := hd.bind hf
  rwa [List.append_nil] at h

theorem run (hd : Decodes d w a) : d w = .ok (a, []) := by
  have h := hd []
  rwa [List.append_nil] at h

theorem append_inj {a' : α} {r s : List τ} (hw : Decodes d w a) (hv : Decodes d v a')
    (h : w ++ r = v ++ s) : a = a' ∧ r = s := by
  have hread := hw r
  rw [h, hv s] at hread
  obtain ⟨ha, hr⟩ := Prod.mk.inj (Except.ok.inj hread)
  exact ⟨ha.symm, hr.symm⟩

end Decodes

/-- Decode a number of values, one behind the other. -/
def Decoder.times (d : Decoder ε τ α) : ℕ → Decoder ε τ (List α)
  | 0 => pure []
  | n + 1 => do
    let x ← d
    let xs ← Decoder.times d n
    pure (x :: xs)

theorem Decodes.times {d : Decoder ε τ α} {encode : α → List τ} {xs : List α}
    (h : ∀ x ∈ xs, Decodes d (encode x) x) :
    Decodes (d.times xs.length) (xs.flatMap encode) xs := by
  induction xs with
  | nil => exact Decodes.pure []
  | cons x xs ih =>
    have hrest := ih (fun y hy => h y (List.mem_cons_of_mem x hy))
    exact (h x List.mem_cons_self).bind (hrest.bind_last (Decodes.pure (x :: xs)))

end Words

end Knomosis.Lib
