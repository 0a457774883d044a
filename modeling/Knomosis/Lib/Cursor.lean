import Mathlib.Tactic

/-!
# Cursors

A cursor walks over a stream and knows how far it has come, for the errors.  Two
notions speak of what a walk accepts.  `Takes p w a`: from every stream that begins
with the word `w` the walk takes `w` and gives `a`.  `Only p L`: whenever the walk
gives `a`, it has taken a word that `L` allows for `a`.
-/

namespace Knomosis.Lib

open List

/-- What is left of a stream and how much of it is gone. -/
structure Cursor (τ : Type) where
  rest : List τ
  offset : ℕ

def Cursor.new {τ : Type} (stream : List τ) : Cursor τ where
  rest := stream
  offset := 0

abbrev Walk (ε τ : Type) := StateT (Cursor τ) (Except ε)

namespace Walk

variable {ε τ α β : Type}

def offset : Walk ε τ ℕ := fun c => .ok (c.offset, c)

def remaining : Walk ε τ ℕ := fun c => .ok (c.rest.length, c)

/-- The next `n` items, or an error if there are less. -/
def front (n : ℕ) (short : ε) : Walk ε τ (List τ) := fun c =>
  if c.rest.length < n then .error short
  else .ok (c.rest.take n, ⟨c.rest.drop n, c.offset + n⟩)

/-- What is behind the item that is expected first. -/
def behind [DecidableEq τ] (first : τ) (short : ε) (wrong : τ → ε) : List τ → Walk ε τ (List τ)
  | [] => throw short
  | x :: xs => if x = first then pure xs else throw (wrong x)

/-- From every stream that begins with the word, the walk takes it and gives the value. -/
def Takes (p : Walk ε τ α) (w : List τ) (a : α) : Prop :=
  ∀ rest n, p ⟨w ++ rest, n⟩ = .ok (a, ⟨rest, n + w.length⟩)

/-- The walk gives a value only for a word that is allowed for it. -/
def Only (p : Walk ε τ α) (L : List τ → α → Prop) : Prop :=
  ∀ c a c', p c = .ok (a, c') → ∃ w, L w a ∧ c.rest = w ++ c'.rest

namespace Takes

variable {p : Walk ε τ α} {f : α → Walk ε τ β} {w v : List τ} {a : α} {b : β}

theorem pure (a : α) : Takes (pure a : Walk ε τ α) [] a := fun _ _ => rfl

theorem bind (hp : Takes p w a) (hf : Takes (f a) v b) : Takes (p >>= f) (w ++ v) b := by
  intro rest n
  change (p ⟨w ++ v ++ rest, n⟩ >>= fun q => f q.1 q.2) = _
  rw [append_assoc, hp (v ++ rest) n, length_append, ← Nat.add_assoc]
  exact hf rest (n + w.length)

/-- A last step that takes nothing more. -/
theorem bind_last (hp : Takes p w a) (hf : Takes (f a) [] b) : Takes (p >>= f) w b := by
  have h := hp.bind hf
  rwa [append_nil] at h

theorem after_offset {f : ℕ → Walk ε τ β} (hf : ∀ n, Takes (f n) w b) : Takes (offset >>= f) w b :=
  fun rest n => hf n rest n

theorem front {n : ℕ} (short : ε) (hlen : w.length = n) : Takes (front n short) w w := by
  intro rest k
  subst hlen
  have hlong : ¬ (w ++ rest).length < w.length := by
    rw [length_append]
    omega
  exact (if_neg hlong).trans (by simp)

theorem run (hp : Takes p w a) : p (Cursor.new w) = .ok (a, ⟨[], w.length⟩) := by
  have h := hp [] 0
  rwa [append_nil, Nat.zero_add] at h

end Takes

theorem run_bind {p : Walk ε τ α} {f : α → Walk ε τ β} {c c' : Cursor τ} {b : β}
    (hrun : (p >>= f) c = .ok (b, c')) : ∃ a c₁, p c = .ok (a, c₁) ∧ f a c₁ = .ok (b, c') := by
  change (p c >>= fun q => f q.1 q.2) = .ok (b, c') at hrun
  cases hfirst : p c with
  | error =>
    rw [hfirst] at hrun
    cases hrun
  | ok q =>
    rw [hfirst] at hrun
    exact ⟨q.1, q.2, rfl, hrun⟩

namespace Only

variable {p : Walk ε τ α} {f : α → Walk ε τ β} {L : List τ → α → Prop}

theorem mono {L' : List τ → α → Prop} (hp : Only p L) (h : ∀ w a, L w a → L' w a) : Only p L' := by
  intro c a c' hrun
  obtain ⟨w, hw, hrest⟩ := hp c a c' hrun
  exact ⟨w, h w a hw, hrest⟩

variable {a : α} {M : List τ → β → Prop}

theorem done (h : L [] a) : Only (Pure.pure a : Walk ε τ α) L := by
  intro c b c' hrun
  cases hrun
  exact ⟨[], h, rfl⟩

theorem throw (e : ε) (L : List τ → α → Prop) : Only (throw e : Walk ε τ α) L := by
  intro c a c' hrun
  cases hrun

/-- A walk, and what may follow each of its words. -/
theorem after (hp : Only p L) (hf : ∀ u a, L u a → Only (f a) (fun v b => M (u ++ v) b)) :
    Only (p >>= f) M := by
  intro c b c' hrun
  obtain ⟨a, c₁, hfirst, hsecond⟩ := run_bind hrun
  obtain ⟨u, hu, hrest⟩ := hp c a c₁ hfirst
  obtain ⟨v, hv, hrest₁⟩ := hf u a hu c₁ b c' hsecond
  exact ⟨u ++ v, hv, by rw [hrest, hrest₁, append_assoc]⟩

section Fields

variable {ι : Type} {enc : ι → List τ} {val : ι → α}

/-- A field, and what may follow the word of each of its values. -/
theorem next {M : List τ → β → Prop} (hp : Only p (fun w a => ∃ x, a = val x ∧ w = enc x))
    (hf : ∀ x, Only (f (val x)) (fun v b => M (enc x ++ v) b)) : Only (p >>= f) M := by
  refine hp.after ?_
  rintro _ _ ⟨x, rfl, rfl⟩
  exact hf x

end Fields

theorem after_offset {f : ℕ → Walk ε τ β} (hf : ∀ n, Only (f n) M) : Only (offset >>= f) M :=
  fun c b c' hrun => hf c.offset c b c' hrun

theorem front (n : ℕ) (short : ε) :
    Only (front n short : Walk ε τ (List τ)) (fun w a => w = a ∧ a.length = n) := by
  intro c a c' hrun
  rw [Walk.front] at hrun
  split at hrun
  · cases hrun
  next hlong =>
    cases hrun
    refine ⟨c.rest.take n, ⟨rfl, ?_⟩, (take_append_drop n c.rest).symm⟩
    rw [length_take]
    omega

/-- A walk over a whole stream. -/
theorem run (hp : Only p L) {stream : List τ} {c : Cursor τ}
    (hrun : p (Cursor.new stream) = .ok (a, c)) (hend : c.rest = []) : L stream a := by
  obtain ⟨w, hw, hrest⟩ := hp _ a c hrun
  rw [hend, append_nil] at hrest
  have hstream : stream = w := hrest
  rwa [hstream]

end Only

/-- The walk reads exactly the words that are allowed. -/
structure Reads (p : Walk ε τ α) (L : List τ → α → Prop) : Prop where
  takes : ∀ {w a}, L w a → Takes p w a
  only : Only p L

namespace Reads

variable {p : Walk ε τ α} {L : List τ → α → Prop}

theorem front (n : ℕ) (short : ε) :
    Reads (front n short : Walk ε τ (List τ)) (fun w a => w = a ∧ a.length = n) where
  takes := by
    rintro w _ ⟨rfl, hlen⟩
    exact Takes.front short hlen
  only := Only.front n short

theorem after_offset {f : ℕ → Walk ε τ α} (hf : ∀ n, Reads (f n) L) : Reads (offset >>= f) L where
  takes := fun h => Takes.after_offset fun n => (hf n).takes h
  only := Only.after_offset fun n => (hf n).only

theorem after_remaining {f : ℕ → Walk ε τ α} (hf : ∀ n, Reads (f n) L) :
    Reads (remaining >>= f) L where
  takes := fun h rest n => (hf _).takes h rest n
  only := fun c a c' hrun => (hf c.rest.length).only c a c' hrun

theorem last {g : α → β} {M : List τ → β → Prop} (hp : Reads p L)
    (h : ∀ w b, M w b ↔ ∃ a, L w a ∧ b = g a) : Reads (p >>= fun a => pure (g a)) M where
  takes := by
    intro w b hM
    obtain ⟨a, hL, rfl⟩ := (h w b).mp hM
    exact (hp.takes hL).bind_last (Takes.pure (g a))
  only := by
    refine hp.only.after fun u a hL => .done ?_
    rw [append_nil]
    exact (h u (g a)).mpr ⟨a, hL, rfl⟩

/-- What is read as a field. -/
theorem field {enc : α → List τ} (hp : Reads p (fun w a => w = enc a)) :
    Only p (fun w a => ∃ x, a = x ∧ w = enc x) :=
  hp.only.mono fun _ a hw => ⟨a, rfl, hw⟩

/-- A word with a fixed item before it. -/
theorem behind [DecidableEq τ] {p : Walk ε τ (List τ)} {n : ℕ}
    (hp : Reads p (fun w a => w = a ∧ a.length = n + 1)) (first : τ) (short : ε) (wrong : τ → ε) :
    Reads (p >>= behind first short wrong) (fun w a => w = first :: a ∧ a.length = n) where
  takes := by
    rintro w a ⟨rfl, hlen⟩
    refine (hp.takes ⟨rfl, by rw [length_cons, hlen]⟩).bind_last ?_
    rw [Walk.behind, if_pos rfl]
    exact Takes.pure a
  only := by
    refine hp.only.after ?_
    rintro head _ ⟨rfl, hlen⟩
    cases head with
    | nil => exact Only.throw _ _
    | cons =>
      rw [Walk.behind]
      split
      next heq => exact .done ⟨by rw [append_nil, heq], by simpa using hlen⟩
      · exact Only.throw _ _

end Reads

end Walk

end Knomosis.Lib
