import Knomosis.Lib.Machine

/-!
# Calls that hand control away

A call on a world of contracts either ends at once or, after its effects, hands
control to an outside account and has something left to do.  While it waits, any
further calls may come in.  When control comes back, the call does what is left,
or it fails and the world is as it was before the call, with everything that
happened in between undone.
-/

universe u v w

namespace Knomosis.Lib

/-- The calls on a world `σ`: what they do before control goes away, and what is left then. -/
structure Reentrant (σ : Type u) (κ : Type v) (τ : Type w) where
  act : σ → κ → Option (σ × Option τ)
  rest : τ → σ → Option σ

namespace Reentrant

variable {σ : Type u} {κ : Type v} {τ : Type w}

/-- A world with the calls that wait on it, each with the world before it. -/
structure Config (σ : Type u) (τ : Type w) where
  world : σ
  waiting : List (σ × τ)

/-- A call, or the end of the wait of the last call. -/
inductive Event (κ : Type v) where
  | call (c : κ)
  | resume (succeeds : Bool)
deriving DecidableEq

/-- The call that waits last goes on, or is undone. -/
def resume (R : Reentrant σ κ τ) (succeeds : Bool) (w : σ) : List (σ × τ) → Option (Config σ τ)
  | [] => none
  | (before, t) :: waiting =>
    if succeeds then some ⟨(R.rest t w).getD before, waiting⟩ else some ⟨before, waiting⟩

/-- The steps of the world, with any calls during any wait. -/
def machine (R : Reentrant σ κ τ) : Machine (Config σ τ) (Event κ) Unit where
  step cfg e :=
    match e with
    | .call c =>
      (R.act cfg.world c).map fun r =>
        (⟨r.1, (r.2.map (fun t => (cfg.world, t))).toList ++ cfg.waiting⟩, ())
    | .resume succeeds => (R.resume succeeds cfg.world cfg.waiting).map (·, ())

variable {R : Reentrant σ κ τ} {s₀ : σ} {I : σ → List τ → Prop}

/-- What the calls and the rests of calls keep holds of every world, and of the worlds that waiting
calls would go back to. -/
theorem invariant (hinit : I s₀ [])
    (hact : ∀ w ts c w' t, I w ts → R.act w c = some (w', t) → I w' (t.toList ++ ts))
    (hrest : ∀ w t ts w', I w (t :: ts) → R.rest t w = some w' → I w' ts)
    {h : List (Entry (Config σ τ) (Event κ) Unit)} {cfg : Config σ τ}
    (hrun : Run R.machine ⟨s₀, []⟩ h cfg) :
    I cfg.world (cfg.waiting.map Prod.snd) ∧
    ∀ front before t back, cfg.waiting = front ++ (before, t) :: back →
      I before (back.map Prod.snd) := by
  refine hrun.invariant ?_ ?_
  · refine ⟨hinit, ?_⟩
    intro front before t back heq
    exact absurd heq.symm (List.append_ne_nil_of_right_ne_nil _ (List.cons_ne_nil _ _))
  rintro h cfg e cfg' o - ⟨hworld, hwaiting⟩ hstep
  cases e with
  | call c =>
    obtain ⟨⟨w', t⟩, hc, heq⟩ := Option.map_eq_some_iff.mp hstep
    obtain ⟨rfl, -⟩ := Prod.ext_iff.mp heq.symm
    have hnext := hact _ _ c w' t hworld hc
    cases t with
    | none => exact ⟨hnext, hwaiting⟩
    | some =>
      refine ⟨hnext, ?_⟩
      intro front before t' back hsplit
      cases front with
      | nil =>
        obtain ⟨heq, rfl⟩ := List.cons.inj hsplit
        obtain ⟨rfl, -⟩ := Prod.ext_iff.mp heq
        exact hworld
      | cons x front => exact hwaiting front before t' back (List.cons.inj hsplit).2
  | resume =>
    obtain ⟨cfg'', hc, heq⟩ := Option.map_eq_some_iff.mp hstep
    obtain ⟨rfl, -⟩ := Prod.ext_iff.mp heq.symm
    obtain ⟨w, waiting⟩ := cfg
    cases waiting with
    | nil => cases hc
    | cons x waiting =>
      obtain ⟨before, t⟩ := x
      have hbefore : I before (waiting.map Prod.snd) := hwaiting [] before t waiting rfl
      have hsuffix : ∀ front before' t' back, waiting = front ++ (before', t') :: back →
          I before' (back.map Prod.snd) := by
        intro front before' t' back hsplit
        exact hwaiting ((before, t) :: front) before' t' back (by rw [hsplit]; rfl)
      rw [resume] at hc
      split_ifs at hc with hsucc
      · cases hc
        refine ⟨?_, hsuffix⟩
        change I ((R.rest t w).getD before) _
        cases hr : R.rest t w with
        | none => exact hbefore
        | some w' => exact hrest w t _ w' hworld hr
      · cases hc
        exact ⟨hbefore, hsuffix⟩

end Reentrant

end Knomosis.Lib
