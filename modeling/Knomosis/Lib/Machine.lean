import Mathlib.Data.List.Induction

/-!
# Machines, runs and run invariants

A machine answers a call in a state with the next state and what the call
emitted, or refuses the call.  A refused call leaves no trace, so a run is the
list of the calls that were accepted, newest first, each with the state it was
made in and what it emitted.
-/

namespace Knomosis.Lib

open List

universe u v w

section Machine

variable {σ : Type u} {κ : Type v} {ω : Type w}

/-- A deterministic machine with refusals and outputs. -/
structure Machine (σ : Type u) (κ : Type v) (ω : Type w) where
  step : σ → κ → Option (σ × ω)

/-- One accepted call: the state it was made in, the call and its output. -/
structure Entry (σ : Type u) (κ : Type v) (ω : Type w) where
  pre : σ
  call : κ
  out : ω

/-- Runs of a machine from `s₀`, with their history, newest entry first. -/
inductive Run (M : Machine σ κ ω) (s₀ : σ) :
    List (Entry σ κ ω) → σ → Prop
  | nil : Run M s₀ [] s₀
  | snoc
      {h : List (Entry σ κ ω)} {s s' : σ} {c : κ} {o : ω}
      (prev : Run M s₀ h s)
      (hstep : M.step s c = some (s', o)) :
      Run M s₀ (⟨s, c, o⟩ :: h) s'

/-- The history and the end of the run that makes the calls `cs` in order. -/
def Machine.exec (M : Machine σ κ ω) (s₀ : σ) (cs : List κ) : Option (List (Entry σ κ ω) × σ) :=
  cs.foldl
    (fun r c => r.bind fun p => (M.step p.2 c).map fun q => (⟨p.2, c, q.2⟩ :: p.1, q.1))
    (some ([], s₀))

namespace Run

variable {M : Machine σ κ ω} {s₀ : σ}
variable {cs : List κ} {h : List (Entry σ κ ω)} {s : σ} {e : Entry σ κ ω}

theorem of_exec (hexec : M.exec s₀ cs = some (h, s)) : Run M s₀ h s := by
  induction cs using List.reverseRecOn generalizing h s with
  | nil =>
    simp only [Machine.exec, foldl_nil, Option.some.injEq, Prod.mk.injEq] at hexec
    obtain ⟨rfl, rfl⟩ := hexec
    exact .nil
  | append_singleton _ _ ih =>
    simp only [Machine.exec, foldl_append, foldl_cons, foldl_nil,
      Option.bind_eq_some_iff, Option.map_eq_some_iff, Prod.mk.injEq, Prod.exists] at hexec
    obtain ⟨h', s', hprev, s'', o, hstep, rfl, rfl⟩ := hexec
    exact .snoc (ih hprev) hstep

/-- What a test finds at the end of a list of calls holds at the end of a run. -/
theorem exists_of_exec {p : List (Entry σ κ ω) × σ → Bool} (htest : (M.exec s₀ cs).any p = true) :
    ∃ h s, Run M s₀ h s ∧ p (h, s) = true := by
  cases hexec : M.exec s₀ cs with
  | none =>
    rw [hexec] at htest
    cases htest
  | some r =>
    rw [hexec] at htest
    exact ⟨r.1, r.2, of_exec hexec, htest⟩

/-- A run that evaluation shows. -/
theorem exists_of_decide
    (M : Machine σ κ ω) (s₀ : σ) (cs : List κ) (P : List (Entry σ κ ω) → σ → Prop)
    [∀ h s, Decidable (P h s)] (htest : (M.exec s₀ cs).any (fun p => decide (P p.1 p.2)) = true) :
    ∃ h s, Run M s₀ h s ∧ P h s := by
  obtain ⟨h, s, hrun, hp⟩ := exists_of_exec htest
  exact ⟨h, s, hrun, of_decide_eq_true hp⟩

theorem append {h' : List (Entry σ κ ω)} {s' : σ} (hfirst : Run M s₀ h s) (hthen : Run M s h' s') :
    Run M s₀ (h' ++ h) s' := by
  induction hthen with
  | nil => exact hfirst
  | snoc _ hstep ih => exact .snoc ih hstep

/-- An invariant of the history and the state, under a guard of every step. -/
theorem invariant_of_guard (G : Entry σ κ ω → Prop) (P : List (Entry σ κ ω) → σ → Prop)
    (hinit : P [] s₀) (hpres : ∀ h s c s' o,
      Run M s₀ h s → P h s → M.step s c = some (s', o) → G ⟨s, c, o⟩ → P (⟨s, c, o⟩ :: h) s')
    {h : List (Entry σ κ ω)} {s : σ} (hrun : Run M s₀ h s) (hguard : ∀ e ∈ h, G e) : P h s := by
  induction hrun with
  | nil => exact hinit
  | snoc prev hstep ih =>
    have hprev := ih (fun e he => hguard e (mem_cons_of_mem _ he))
    exact hpres _ _ _ _ _ prev hprev hstep (hguard _ mem_cons_self)

/-- An invariant of the history and the state. -/
@[elab_as_elim]
theorem invariant {motive : List (Entry σ κ ω) → σ → Prop} {h : List (Entry σ κ ω)} {s : σ}
    (hrun : Run M s₀ h s) (hinit : motive [] s₀) (hpres : ∀ h s c s' o,
      Run M s₀ h s → motive h s → M.step s c = some (s', o) → motive (⟨s, c, o⟩ :: h) s') :
    motive h s :=
  invariant_of_guard (fun _ => True) motive hinit
    (fun h s c s' o hr hp hs _ => hpres h s c s' o hr hp hs)
    hrun (fun _ _ => trivial)

/-- Every entry of a history is a step from a state that a run reaches. -/
theorem step_of_mem (hrun : Run M s₀ h s) (he : e ∈ h) :
    ∃ h' s', Run M s₀ h' e.pre ∧ M.step e.pre e.call = some (s', e.out) := by
  induction hrun with
  | nil => cases he
  | snoc prev hstep ih =>
    rcases mem_cons.mp he with rfl | he
    · exact ⟨_, _, prev, hstep⟩
    · exact ih he

/-- A run can be cut at each of its entries. -/
theorem split {later earlier : List (Entry σ κ ω)} (hrun : Run M s₀ (later ++ e :: earlier) s) :
    ∃ s₁, Run M s₀ earlier e.pre ∧ M.step e.pre e.call = some (s₁, e.out) ∧ Run M s₁ later s := by
  induction later generalizing s with
  | nil =>
    cases hrun with
    | snoc prev hstep => exact ⟨s, prev, hstep, .nil⟩
  | cons _ _ ih =>
    cases hrun with
    | snoc prev hstep =>
      obtain ⟨s₁, hbefore, hcut, hafter⟩ := ih prev
      exact ⟨s₁, hbefore, hcut, .snoc hafter hstep⟩

/-- `P` holds at every point of the run that ends in `s` with history `h`. -/
def Always (P : List (Entry σ κ ω) → σ → Prop) : List (Entry σ κ ω) → σ → Prop
  | [], s => P [] s
  | e :: h, s => P (e :: h) s ∧ Always P h e.pre

/--
A property of all points of a run against a guard of all of its steps.  The
invariant `I` may be stronger than `P`; it is what the guarded steps preserve,
and under it a step that keeps `P` must have met the guard.
-/
theorem always_iff_guard (G : Entry σ κ ω → Prop) (P I : List (Entry σ κ ω) → σ → Prop)
    (hinit : I [] s₀) (hIP : ∀ h s, Run M s₀ h s → I h s → P h s) (hpres : ∀ h s c s' o,
      Run M s₀ h s → I h s → M.step s c = some (s', o) → G ⟨s, c, o⟩ → I (⟨s, c, o⟩ :: h) s')
    (hforce : ∀ h s c s' o,
      Run M s₀ h s → I h s → M.step s c = some (s', o) → P (⟨s, c, o⟩ :: h) s' → G ⟨s, c, o⟩)
    {h : List (Entry σ κ ω)} {s : σ} (hrun : Run M s₀ h s) : Always P h s ↔ ∀ e ∈ h, G e := by
  -- the two directions are proved together with the invariant, because the
  -- step lemma of either direction needs it in the state before the step
  have key : (Always P h s ↔ ∀ e ∈ h, G e) ∧ ((∀ e ∈ h, G e) → I h s) := by
    induction hrun with
    | nil =>
      exact ⟨⟨fun _ e he => absurd he (by simp), fun _ => hIP _ _ .nil hinit⟩, fun _ => hinit⟩
    | @snoc h s s' c o prev hstep ih =>
      obtain ⟨ihIff, ihInv⟩ := ih
      have hinv : (∀ e ∈ (⟨s, c, o⟩ :: h : List (Entry σ κ ω)), G e) → I (⟨s, c, o⟩ :: h) s' := by
        intro hg
        have hI := ihInv (fun e he => hg e (mem_cons_of_mem _ he))
        exact hpres _ _ _ _ _ prev hI hstep (hg _ mem_cons_self)
      refine ⟨⟨?_, ?_⟩, hinv⟩
      · rintro ⟨hlast, hbefore⟩ e he
        have hg := ihIff.mp hbefore
        rcases mem_cons.mp he with rfl | he
        · exact hforce _ _ _ _ _ prev (ihInv hg) hstep hlast
        · exact hg e he
      · intro hg
        refine ⟨hIP _ _ (.snoc prev hstep) (hinv hg), ?_⟩
        exact ihIff.mpr (fun e he => hg e (mem_cons_of_mem _ he))
  exact key.1

end Run

section Simulation

variable {σ' : Type*} {M : Machine σ κ ω} {M' : Machine σ' κ ω}

/-- Two machines that answer alike from related states, and stay related, answer a whole list of
calls alike. -/
theorem Machine.exec_alike (Rel : σ → σ' → Prop) (P : κ → Prop) (hstep : ∀ s s' c, Rel s s' → P c →
      ∃ t t' o, M.step s c = some (t, o) ∧ M'.step s' c = some (t', o) ∧ Rel t t')
    {s₀ : σ} {s₀' : σ'} (hinit : Rel s₀ s₀') (cs : List κ) (hcs : ∀ c ∈ cs, P c) :
    ∃ h s h' s', M.exec s₀ cs = some (h, s) ∧ M'.exec s₀' cs = some (h', s') ∧
      h.map Entry.out = h'.map Entry.out ∧ Rel s s' := by
  induction cs using List.reverseRecOn with
  | nil => exact ⟨[], s₀, [], s₀', rfl, rfl, rfl, hinit⟩
  | append_singleton _ c ih =>
    obtain ⟨h, s, h', s', hexec, hexec', houts, hrel⟩ := ih fun d hd => hcs d (mem_append_left _ hd)
    obtain ⟨t, t', o, ht, ht', hrel'⟩ := hstep s s' c hrel (hcs c (by simp))
    refine ⟨⟨s, c, o⟩ :: h, t, ⟨s', c, o⟩ :: h', t', ?_, ?_, ?_, hrel'⟩
    · rw [Machine.exec] at hexec ⊢
      simp [hexec, ht]
    · rw [Machine.exec] at hexec' ⊢
      simp [hexec', ht']
    · rw [map_cons, map_cons, houts]

end Simulation

end Machine

end Knomosis.Lib
