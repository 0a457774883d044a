import Mathlib.Logic.Relation
import Mathlib.Tactic

/-!
# Chains of numbered records with one swept interval

A chain keeps records under natural numbers.  A record has a time stamp and a
parent; number zero is the root.  Appending puts a record on the tip, maybe
over an old record of the same number.  Sweeping from a number discards records
without touching them: all sweeps share one interval and one time, and a record
counts as swept when its number lies in the interval and its stamp is not later
than the last sweep.

`Sound` is what every history keeps.  `Canonical` says that the unswept records
are exactly the records on the way from the tip to the root.
-/

namespace Knomosis.Lib

open Function

theorem apply_update_of_eq {β : Type*} {γ : Type*} {f : ℕ → β} {k : ℕ} {r : β} (part : β → γ)
    (h : part r = part (f k)) (j : ℕ) : part (update f k r j) = part (f j) := by
  rw [apply_update fun _ => part, h, update_eq_self]

/-- Records by number, and the one interval that describes all sweeps. -/
structure Chain where
  stamp : ℕ → ℕ
  parent : ℕ → ℕ
  tip : ℕ
  latest : ℕ
  floor : ℕ
  ceiling : ℕ
  lastSweep : ℕ

namespace Chain

def Exists (c : Chain) (k : ℕ) : Prop := c.stamp k ≠ 0

/-- The record counts as swept. -/
def Swept (c : Chain) (k : ℕ) : Prop := c.floor ≤ k ∧ k ≤ c.ceiling ∧ c.stamp k ≤ c.lastSweep

def Live (c : Chain) (k : ℕ) : Prop := c.Exists k ∧ ¬ c.Swept k

def Link (c : Chain) (k j : ℕ) : Prop := k ≠ 0 ∧ c.Exists k ∧ c.parent k = j

/-- `f` is `k` or lies on the way from `k` to the root. -/
def Ancestor (c : Chain) (f k : ℕ) : Prop := Relation.ReflTransGen c.Link k f

/-- Put a record on the tip at time `now`. -/
def append (c : Chain) (e now : ℕ) : Chain :=
  { c with
    stamp := Function.update c.stamp e now
    parent := Function.update c.parent e c.tip
    tip := e
    latest := max c.latest e }

/-- Sweep from the record `f` on at time `now`. -/
def sweep (c : Chain) (f now : ℕ) : Chain :=
  { c with
    floor := min c.floor f
    ceiling := max c.ceiling (max c.latest f)
    lastSweep := now
    tip := min c.tip (c.parent f) }

/-- What holds of a chain at time `now`, whatever was swept. -/
structure Sound (c : Chain) (now : ℕ) : Prop where
  root_exists : c.Exists 0
  root_parent : c.parent 0 = 0
  parent_lt : ∀ k, c.Exists k → k ≠ 0 → c.parent k < k
  parent_exists : ∀ k, c.Exists k → k ≠ 0 → c.Exists (c.parent k)
  tip_exists : c.Exists c.tip
  le_latest : ∀ k, c.Exists k → k ≤ c.latest
  stamp_le : ∀ k, c.stamp k ≤ now
  lastSweep_le : c.lastSweep ≤ now

/-- The unswept records are the ones below the tip. -/
structure Canonical (c : Chain) : Prop where
  ancestor_of_live : ∀ k, c.Live k → c.Ancestor k c.tip
  live_of_ancestor : ∀ k, c.Ancestor k c.tip → k ≠ 0 → c.Live k

variable {c : Chain} {now e f j k : ℕ}

namespace Sound

theorem mono (hc : c.Sound now) {later : ℕ} (hle : now ≤ later) : c.Sound later :=
  { hc with
    stamp_le := fun k => (hc.stamp_le k).trans hle
    lastSweep_le := hc.lastSweep_le.trans hle }

theorem link_lt (hc : c.Sound now) (hlink : c.Link k j) : j < k := by
  obtain ⟨hk, hex, rfl⟩ := hlink
  exact hc.parent_lt k hex hk

theorem ancestor_le (hc : c.Sound now) (h : c.Ancestor f k) : f ≤ k := by
  induction h with
  | refl => exact le_rfl
  | tail _ hlink ih => exact (hc.link_lt hlink).le.trans ih

theorem ancestor_exists (hc : c.Sound now) (h : c.Ancestor f k) (hk : c.Exists k) : c.Exists f := by
  induction h with
  | refl => exact hk
  | tail _ hlink _ =>
    obtain ⟨hne, hex, rfl⟩ := hlink
    exact hc.parent_exists _ hex hne

theorem root_ancestor (hc : c.Sound now) (hk : c.Exists k) : c.Ancestor 0 k := by
  induction k using Nat.strong_induction_on with
  | h k ih =>
    by_cases hne : k = 0
    · subst hne
      exact .refl
    · have hlt := hc.parent_lt k hk hne
      have hup := ih _ hlt (hc.parent_exists k hk hne)
      exact .head ⟨hne, hk, rfl⟩ hup

end Sound

theorem link_rightUnique (c : Chain) : Relator.RightUnique c.Link := by
  rintro k i j ⟨_, _, rfl⟩ ⟨_, _, rfl⟩
  rfl

/-- Two ancestors of one record are ordered as their numbers are. -/
theorem Sound.ancestor_of_le (hc : c.Sound now) (hf : c.Ancestor f e) (hk : c.Ancestor k e)
    (hle : f ≤ k) : c.Ancestor f k := by
  rcases Relation.ReflTransGen.total_of_right_unique c.link_rightUnique hk hf with h | h
  · exact h
  · have heq : f = k := le_antisymm hle (hc.ancestor_le h)
    subst heq
    exact .refl

theorem ancestor_parent (h : c.Ancestor f k) (hne : f ≠ k) : c.Ancestor f (c.parent k) := by
  rcases Relation.ReflTransGen.cases_head h with rfl | ⟨j, ⟨_, _, rfl⟩, hj⟩
  · exact absurd rfl hne
  · exact hj

theorem Ancestor.of_parent (h : c.Ancestor f (c.parent k)) (hk : c.Exists k) (hne : k ≠ 0) :
    c.Ancestor f k :=
  .head ⟨hne, hk, rfl⟩ h

/-- An append leaves the way from `k` to the root alone unless it meets it. -/
theorem ancestor_append_of_not (hnot : ¬ c.Ancestor e k) :
    (c.append e now).Ancestor f k ↔ c.Ancestor f k := by
  -- both directions walk down from `k`; no record met on the way is `e`
  have hne : ∀ i, c.Ancestor i k → i ≠ e := by
    rintro i hi rfl
    exact hnot hi
  have hlink : ∀ i j, i ≠ e → ((c.append e now).Link i j ↔ c.Link i j) := by
    intro i j hi
    simp [Link, Exists, append, update_of_ne hi]
  constructor
  · intro h
    induction h with
    | refl => exact .refl
    | tail _ hl ih => exact .tail ih ((hlink _ _ (hne _ ih)).mp hl)
  · intro h
    induction h with
    | refl => exact .refl
    | tail hi hl ih => exact .tail ih ((hlink _ _ (hne _ hi)).mpr hl)

theorem append_exists_self (hnow : 0 < now) : (c.append e now).Exists e := by
  simp [Exists, append, hnow.ne']

theorem append_exists_of_exists (hnow : 0 < now) (hk : c.Exists k) : (c.append e now).Exists k := by
  by_cases h : k = e
  · subst h
    exact append_exists_self hnow
  · simpa [Exists, append, update_of_ne h] using hk

theorem exists_of_append (hne : k ≠ e) (hk : (c.append e now).Exists k) : c.Exists k := by
  simpa [Exists, append, update_of_ne hne] using hk

theorem append_live_of_ne (hne : k ≠ e) : (c.append e now).Live k ↔ c.Live k := by
  simp [Live, Exists, Swept, append, update_of_ne hne]

/-- The new record is swept at once exactly when it reuses a number of the
swept interval at the time of the last sweep. -/
theorem Sound.append_swept_self (hc : c.Sound now) :
    (c.append e now).Swept e ↔ c.floor ≤ e ∧ e ≤ c.ceiling ∧ now = c.lastSweep := by
  have := hc.lastSweep_le
  simp only [Swept, append, update_self]
  constructor
  · rintro ⟨hfloor, hceil, hle⟩
    exact ⟨hfloor, hceil, le_antisymm hle this⟩
  · rintro ⟨hfloor, hceil, heq⟩
    exact ⟨hfloor, hceil, heq.le⟩

theorem Sound.append (hc : c.Sound now) (hnow : 0 < now) (hlt : c.tip < e) :
    (c.append e now).Sound now := by
  have hzero : (0 : ℕ) ≠ e := (Nat.zero_le _ |>.trans_lt hlt).ne
  refine
    { root_exists := append_exists_of_exists hnow hc.root_exists
      root_parent := ?_
      parent_lt := ?_
      parent_exists := ?_
      tip_exists := append_exists_self hnow
      le_latest := ?_
      stamp_le := ?_
      lastSweep_le := hc.lastSweep_le }
  · simpa [Chain.append, update_of_ne hzero] using hc.root_parent
  · intro k hk hne
    by_cases h : k = e
    · subst h
      simpa [Chain.append] using hlt
    · simpa [Chain.append, update_of_ne h] using hc.parent_lt k (exists_of_append h hk) hne
  · intro k hk hne
    by_cases h : k = e
    · subst h
      simpa [Chain.append] using append_exists_of_exists hnow hc.tip_exists
    · have hparent := hc.parent_exists k (exists_of_append h hk) hne
      simpa [Chain.append, update_of_ne h] using append_exists_of_exists (e := e) hnow hparent
  · intro k hk
    by_cases h : k = e
    · subst h
      exact le_max_right _ _
    · exact (hc.le_latest k (exists_of_append h hk)).trans (le_max_left _ _)
  · intro k
    by_cases h : k = e
    · subst h
      simp [Chain.append]
    · simpa [Chain.append, update_of_ne h] using hc.stamp_le k

/-- An append over a dead number keeps the chain canonical, unless the new
record is swept at once. -/
theorem Canonical.append (hcan : c.Canonical) (hc : c.Sound now) (hnow : 0 < now) (hlt : c.tip < e)
    (hlive : ¬ (c.append e now).Swept e) : (c.append e now).Canonical := by
  have hself : (c.append e now).Live e := ⟨append_exists_self hnow, hlive⟩
  -- the old tip lies below `e`, so `e` is not on the old canonical way
  have hnot : ¬ c.Ancestor e c.tip := fun h => absurd (hc.ancestor_le h) (by omega)
  have hstep : (c.append e now).parent e = c.tip := by simp [Chain.append]
  have htip : ∀ {f}, (c.append e now).Ancestor f c.tip ↔ c.Ancestor f c.tip :=
    ancestor_append_of_not hnot
  refine ⟨?_, ?_⟩
  · intro k hk
    by_cases h : k = e
    · subst h
      exact .refl
    · have hold := hcan.ancestor_of_live k ((append_live_of_ne h).mp hk)
      refine Ancestor.of_parent (k := e) ?_ hself.1 (by omega)
      rw [hstep]
      exact htip.mpr hold
  · intro k hk hne
    by_cases h : k = e
    · subst h
      exact hself
    · have hup := ancestor_parent hk h
      rw [show (c.append e now).tip = e from rfl, hstep] at hup
      exact (append_live_of_ne h).mpr (hcan.live_of_ancestor k (htip.mp hup) hne)

theorem sweep_ancestor : (c.sweep f now).Ancestor j k ↔ c.Ancestor j k := Iff.rfl

theorem sweep_exists : (c.sweep f now).Exists k ↔ c.Exists k := Iff.rfl

theorem Sound.sweep_swept (hc : c.Sound now) (hk : c.Exists k) :
    (c.sweep f now).Swept k ↔ c.floor ≤ k ∨ f ≤ k := by
  have hlatest := hc.le_latest k hk
  have hstamp := hc.stamp_le k
  simp only [Swept, sweep, min_le_iff]
  constructor
  · rintro ⟨h, _, _⟩
    exact h
  · intro h
    exact ⟨h, by omega, hstamp⟩

theorem Sound.sweep_live (hc : c.Sound now) :
    (c.sweep f now).Live k ↔ c.Exists k ∧ k < c.floor ∧ k < f := by
  constructor
  · rintro ⟨hk, hns⟩
    rw [hc.sweep_swept hk] at hns
    exact ⟨hk, by omega, by omega⟩
  · rintro ⟨hk, h₁, h₂⟩
    refine ⟨hk, ?_⟩
    rw [hc.sweep_swept hk]
    omega

theorem live_of_lt_floor (hk : c.Exists k) (hlt : k < c.floor) : c.Live k :=
  ⟨hk, fun h => absurd h.1 (by omega)⟩

theorem Sound.parent_exists_or_root (hc : c.Sound now) (hf : c.Exists f) :
    c.Exists (c.parent f) := by
  by_cases hne : f = 0
  · subst hne
    rw [hc.root_parent]
    exact hc.root_exists
  · exact hc.parent_exists f hf hne

theorem Sound.sweep (hc : c.Sound now) (hf : c.Exists f) : (c.sweep f now).Sound now := by
  refine
    { root_exists := hc.root_exists
      root_parent := hc.root_parent
      parent_lt := hc.parent_lt
      parent_exists := hc.parent_exists
      tip_exists := ?_
      le_latest := hc.le_latest
      stamp_le := hc.stamp_le
      lastSweep_le := le_rfl }
  show c.Exists (min c.tip (c.parent f))
  rcases min_choice c.tip (c.parent f) with h | h
  · rw [h]
    exact hc.tip_exists
  · rw [h]
    exact hc.parent_exists_or_root hf

/-- The sweep from `f` reaches no unswept record but the descendants of `f`. -/
def Confined (c : Chain) (f : ℕ) : Prop := ∀ k, c.Live k → c.floor ≤ k → c.Ancestor f k

/-- What a confined sweep does to the tip: it moves to the parent of a live
`f`, and stays where it is when `f` was swept before. -/
theorem Canonical.sweep_tip (hcan : c.Canonical) (hc : c.Sound now) (hf : c.Exists f)
    (hconf : c.Confined f) (hstale : c.Swept f → c.floor ≤ c.parent f) :
    (c.sweep f now).tip = c.parent f ∧ (c.Live f ∨ f = 0) ∨
      (c.sweep f now).tip = c.tip ∧ c.Swept f ∧ (c.tip < c.floor ∨ c.tip = 0) := by
  by_cases h0 : f = 0
  · subst h0
    refine Or.inl ⟨?_, Or.inr rfl⟩
    simp [Chain.sweep, hc.root_parent]
  by_cases hs : c.Swept f
  · refine Or.inr ?_
    -- a live tip inside the interval would descend from the swept `f`
    have htip : c.tip < c.floor ∨ c.tip = 0 := by
      by_contra hcon
      push Not at hcon
      have hlive := hcan.live_of_ancestor c.tip .refl hcon.2
      have hanc := hconf c.tip hlive hcon.1
      exact (hcan.live_of_ancestor f hanc h0).2 hs
    refine ⟨?_, hs, htip⟩
    have := hstale hs
    simp only [Chain.sweep]
    omega
  · refine Or.inl ⟨?_, Or.inl ⟨hf, hs⟩⟩
    have hanc := hcan.ancestor_of_live f ⟨hf, hs⟩
    have hle := hc.ancestor_le hanc
    have hlt := hc.parent_lt f hf h0
    simp only [Chain.sweep]
    omega

/-- A confined sweep keeps the chain canonical. -/
theorem Canonical.sweep (hcan : c.Canonical) (hc : c.Sound now) (hf : c.Exists f)
    (hconf : c.Confined f) (hstale : c.Swept f → c.floor ≤ c.parent f) :
    (c.sweep f now).Canonical := by
  have hbelow : ∀ {k}, c.Exists k → k < c.floor → c.Ancestor k c.tip :=
    fun hk hlt => hcan.ancestor_of_live _ (live_of_lt_floor hk hlt)
  rcases hcan.sweep_tip hc hf hconf hstale with ⟨htip, hf'⟩ | ⟨htip, hs, hlow⟩
  · refine ⟨?_, ?_⟩
    · intro k hk
      obtain ⟨hex, hfloor, hlt⟩ := hc.sweep_live.mp hk
      rw [sweep_ancestor, htip]
      rcases hf' with hlive | rfl
      · have hanc := hc.ancestor_of_le (hbelow hex hfloor) (hcan.ancestor_of_live f hlive) hlt.le
        exact ancestor_parent hanc hlt.ne
      · omega
    · intro k hk hne
      rw [sweep_ancestor, htip] at hk
      rcases hf' with hlive | rfl
      · have hfne : f ≠ 0 := by
          rintro rfl
          rw [hc.root_parent] at hk
          exact hne (Nat.le_zero.mp (hc.ancestor_le hk))
        have hlt : k < f := (hc.ancestor_le hk).trans_lt (hc.parent_lt f hf hfne)
        have hkf : c.Ancestor k f := Ancestor.of_parent hk hf hfne
        have hktip : c.Ancestor k c.tip := (hcan.ancestor_of_live f hlive).trans hkf
        have hklive := hcan.live_of_ancestor k hktip hne
        refine hc.sweep_live.mpr ⟨hklive.1, ?_, hlt⟩
        by_contra hge
        exact absurd (hc.ancestor_le (hconf k hklive (by omega))) (by omega)
      · rw [hc.root_parent] at hk
        exact absurd (hc.ancestor_le hk) (by omega)
  · refine ⟨?_, ?_⟩
    · intro k hk
      obtain ⟨hex, hfloor, _⟩ := hc.sweep_live.mp hk
      rw [sweep_ancestor, htip]
      exact hbelow hex hfloor
    · intro k hk hne
      rw [sweep_ancestor, htip] at hk
      have hle := hc.ancestor_le hk
      have hfloor := hs.1
      exact hc.sweep_live.mpr ⟨hc.ancestor_exists hk hc.tip_exists, by omega, by omega⟩

/-- A record that a confined sweep discards descends from `f`. -/
theorem Canonical.sweep_swept_iff (hcan : c.Canonical) (hc : c.Sound now) (hf : c.Exists f)
    (hconf : c.Confined f) (hk : c.Exists k) :
    (c.sweep f now).Swept k ↔ c.Swept k ∨ c.Ancestor f k := by
  rw [hc.sweep_swept hk]
  constructor
  · intro h
    by_cases hs : c.Swept k
    · exact Or.inl hs
    · refine Or.inr ?_
      by_cases hfloor : c.floor ≤ k
      · exact hconf k ⟨hk, hs⟩ hfloor
      · have hle : f ≤ k := by omega
        have hkt := hcan.ancestor_of_live k ⟨hk, hs⟩
        have hft := hcan.ancestor_of_live f (live_of_lt_floor hf (by omega))
        exact hc.ancestor_of_le hft hkt hle
  · rintro (h | h)
    · exact Or.inl h.1
    · exact Or.inr (hc.ancestor_le h)

/-- A sweep that discards no record but the descendants of `f` is confined. -/
theorem Sound.confined_of_sweep_swept (hc : c.Sound now)
    (h : ∀ k, c.Exists k → (c.sweep f now).Swept k → c.Swept k ∨ c.Ancestor f k) :
    c.Confined f := by
  intro k hlive hfloor
  have hs := (hc.sweep_swept (f := f) hlive.1).mpr (Or.inl hfloor)
  exact (h k hlive.1 hs).resolve_left hlive.2

/-- A sweep that leaves the tip unswept is confined. -/
theorem Canonical.confined_of_tip_live (hcan : c.Canonical) (hc : c.Sound now) (hf : c.Exists f)
    (hstale : c.Swept f → c.floor ≤ c.parent f) (htip : (c.sweep f now).Live (c.sweep f now).tip) :
    c.Confined f := by
  obtain ⟨_, hfloor, hlt⟩ := hc.sweep_live.mp htip
  have hmin : (c.sweep f now).tip = min c.tip (c.parent f) := rfl
  intro k hk hge
  have hkt := hcan.ancestor_of_live k hk
  have hle := hc.ancestor_le hkt
  by_cases hs : c.Swept f
  · have := hstale hs
    omega
  have hft := hcan.ancestor_of_live f ⟨hf, hs⟩
  have hfle := hc.ancestor_le hft
  by_cases hkf : f ≤ k
  · exact hc.ancestor_of_le hft hkt hkf
  -- `k` lies below `f`, hence below the new tip, which is unswept
  have hanc := ancestor_parent (hc.ancestor_of_le hkt hft (by omega)) (by omega)
  have := hc.ancestor_le hanc
  omega

end Chain

end Knomosis.Lib
