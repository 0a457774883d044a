import Knomosis.Contracts.System

/-!
# No stuck bisection

A play is a sequence of accepted bisection moves on one game.  The range halves
with every response, so a game of width `w` is down to a single step after at
most `⌈log₂ w⌉` responses, far from the depth cap.  What can still stop the
party on turn is the midpoint itself: `low.idx + high.idx` is added in checked
64-bit arithmetic.
-/

namespace Knomosis.Contracts

open Lib

inductive BisectionMove where
  | submit (msg : Msg) (midpointCommit : Bytes32)
  | respond (msg : Msg) (agree : Bool)

def bisection (cfg : GameConfig) : Machine Game BisectionMove Unit where
  step g move :=
    match move with
    | .submit msg midpointCommit =>
      (g.submitMidpoint cfg msg midpointCommit).toOption.map fun g' => (g', ())
    | .respond msg agree => (g.respondToMidpoint cfg msg agree).toOption.map fun g' => (g', ())

abbrev PlayEntry := Entry Game BisectionMove Unit

def responses (h : List PlayEntry) : ℕ :=
  h.countP fun e => match e.call with
    | .submit _ _ => false
    | .respond _ _ => true

namespace Game

/-- The number of log entries in dispute. -/
def width (g : Game) : ℕ := g.high.idx - g.low.idx

/-- The call comes in time, and the clock has room for another deadline. -/
structure Timely (cfg : GameConfig) (g : Game) (msg : Msg) : Prop where
  in_time : msg.block.number ≤ g.turnDeadline
  not_early : g.lastStepBlock + cfg.minBisectionStepIntervalBlocks ≤ msg.block.number
  room : msg.block.number + cfg.bisectionResponseTimeout < 2 ^ 64

/-- Down to one log entry and nothing pending: the structural checks of
`terminateOnSingleStep` pass. -/
def SingleStep (g : Game) : Prop :=
  g.status = .inProgress ∧ g.high.idx = g.low.idx + 1 ∧ g.hasPendingMidpoint = false

/-- The party on turn has a move that passes every check but the clock. -/
def NotStuck (cfg : GameConfig) (g : Game) : Prop :=
  g.SingleStep ∨
    (g.hasPendingMidpoint = true ∧
      ∀ msg agree, msg.sender = g.responsible → g.Timely cfg msg →
        ∃ g', g.respondToMidpoint cfg msg agree = .ok g') ∨
    (g.hasPendingMidpoint = false ∧ 2 ≤ g.width ∧
      ∀ msg midpointCommit, msg.sender = g.responsible → g.Timely cfg msg →
        ∃ g', g.submitMidpoint cfg msg midpointCommit = .ok g')

/-- What a play keeps: the range shrinks inside its first bounds, halving with
every response. -/
structure InPlay (cfg : GameConfig) (low high : ℕ) (r : ℕ) (g : Game) : Prop where
  status_eq : g.status = .inProgress
  low_le : low ≤ g.low.idx
  lt : g.low.idx < g.high.idx
  high_le : g.high.idx ≤ high
  depth_eq : g.depth = r
  rounds_le : r ≤ Nat.clog 2 (high - low)
  width_le : g.width ≤ 2 ^ (Nat.clog 2 (high - low) - r)
  pending_inside : g.hasPendingMidpoint = true →
    g.low.idx < g.pendingMidpoint.idx ∧ g.pendingMidpoint.idx < g.high.idx ∧
      g.pendingMidpoint.idx = (g.low.idx + g.high.idx) / 2
  clock : g.lastStepBlock + cfg.bisectionResponseTimeout < 2 ^ 64

variable {cfg : GameConfig} {low high r : ℕ} {g g' : Game} {msg : Msg}

theorem nextDeadline_of_room (hroom : msg.block.number + cfg.bisectionResponseTimeout < 2 ^ 64) :
    nextDeadline cfg msg.block = some (msg.block.number + cfg.bisectionResponseTimeout) := by
  rw [nextDeadline, truncate_of_lt msg.block.lt]
  exact checkedAdd_eq_some.mpr ⟨hroom, rfl⟩

theorem earliestStep_of_clock (hclock : g.lastStepBlock + cfg.bisectionResponseTimeout < 2 ^ 64) :
    g.earliestStep cfg = some (g.lastStepBlock + cfg.minBisectionStepIntervalBlocks) := by
  have := cfg.interval_lt_timeout
  exact checkedAdd_eq_some.mpr ⟨by omega, rfl⟩

variable {midpointCommit : Bytes32} {agree : Bool}

/-- `submitMidpoint` once every check up to the midpoint is passed. -/
theorem submitMidpoint_eq (hstatus : g.status = .inProgress)
    (hpending : g.hasPendingMidpoint = false) (hdepth : g.depth < maxBisectionDepth)
    (hclock : g.lastStepBlock + cfg.bisectionResponseTimeout < 2 ^ 64)
    (hsender : msg.sender = g.responsible) (htime : g.Timely cfg msg) :
    g.submitMidpoint cfg msg midpointCommit =
      checked (checkedAdd 64 g.low.idx g.high.idx) .arithmeticPanic fun idxSum =>
        if idxSum / 2 ≤ g.low.idx ∨ g.high.idx ≤ idxSum / 2 then .error .midpointOutOfRange
        else .ok ((g.propose ⟨idxSum / 2, midpointCommit⟩).passTurn
          (msg.block.number + cfg.bisectionResponseTimeout) msg.block) := by
  have h₁ : ¬ g.turnDeadline < msg.block.number := not_lt.mpr htime.in_time
  have h₂ : ¬ msg.block.number < g.lastStepBlock + cfg.minBisectionStepIntervalBlocks :=
    not_lt.mpr htime.not_early
  have h₃ : ¬ maxBisectionDepth ≤ g.depth := not_le.mpr hdepth
  simp [submitMidpoint, checked, hstatus, h₁, hpending, h₃, earliestStep_of_clock hclock, h₂,
    hsender, nextDeadline_of_room htime.room]

theorem respondToMidpoint_eq (hstatus : g.status = .inProgress)
    (hpending : g.hasPendingMidpoint = true) (hdepth : g.depth < maxBisectionDepth)
    (hclock : g.lastStepBlock + cfg.bisectionResponseTimeout < 2 ^ 64)
    (hsender : msg.sender = g.responsible) (htime : g.Timely cfg msg) :
    g.respondToMidpoint cfg msg agree =
      .ok ((g.narrow agree).passTurn (msg.block.number + cfg.bisectionResponseTimeout)
        msg.block) := by
  have h₁ : ¬ g.turnDeadline < msg.block.number := not_lt.mpr htime.in_time
  have h₂ : ¬ msg.block.number < g.lastStepBlock + cfg.minBisectionStepIntervalBlocks :=
    not_lt.mpr htime.not_early
  have h₃ : ¬ maxBisectionDepth < (g.narrow agree).depth := by simpa [narrow] using hdepth
  simp [respondToMidpoint, checked, hstatus, h₁, hpending, earliestStep_of_clock hclock, h₂,
    hsender, h₃, nextDeadline_of_room htime.room]

theorem clog_width_le (hhigh : high < 2 ^ 64) : Nat.clog 2 (high - low) ≤ maxBisectionDepth :=
  Nat.clog_le_of_le_pow (by
    show high - low ≤ 2 ^ 64
    omega)

section

variable (hg : g.InPlay cfg low high r)
include hg

theorem InPlay.rounds_lt (hwide : 2 ≤ g.width) : r < Nat.clog 2 (high - low) := by
  by_contra hge
  have hw := hg.width_le
  rw [Nat.sub_eq_zero_of_le (not_lt.mp hge), pow_zero] at hw
  omega

theorem InPlay.depth_lt (hhigh : high < 2 ^ 64)
    (hwide : 2 ≤ g.width) : g.depth < maxBisectionDepth := by
  rw [hg.depth_eq]
  exact (hg.rounds_lt hwide).trans_le (clog_width_le hhigh)

theorem InPlay.pending_wide (hpending : g.hasPendingMidpoint = true) : 2 ≤ g.width := by
  have := hg.pending_inside hpending
  unfold width
  omega

theorem InPlay.submit
    (h : g.submitMidpoint cfg msg midpointCommit = .ok g') : g'.InPlay cfg low high r := by
  have hroom : msg.block.number + cfg.bisectionResponseTimeout < 2 ^ 64 := by
    simp only [submitMidpoint, guard_eq_ok, checked_eq_ok] at h
    obtain ⟨_, _, _, _, _, _, _, _, _, _, _, _, hdeadline, _⟩ := h
    rw [nextDeadline, truncate_of_lt msg.block.lt, checkedAdd_eq_some] at hdeadline
    exact hdeadline.1
  obtain ⟨_, _, _, _, _, hlow, hhigh, deadline, rfl⟩ := submitMidpoint_ok h
  refine
    { status_eq := hg.status_eq
      low_le := hg.low_le
      lt := hg.lt
      high_le := hg.high_le
      depth_eq := hg.depth_eq
      rounds_le := hg.rounds_le
      width_le := hg.width_le
      pending_inside := fun _ => ⟨hlow, hhigh, rfl⟩
      clock := ?_ }
  simpa [passTurn, truncate_of_lt msg.block.lt] using hroom

theorem InPlay.respond
    (h : g.respondToMidpoint cfg msg agree = .ok g') : g'.InPlay cfg low high (r + 1) := by
  have hroom : msg.block.number + cfg.bisectionResponseTimeout < 2 ^ 64 := by
    simp only [respondToMidpoint, guard_eq_ok, checked_eq_ok] at h
    obtain ⟨_, _, _, _, _, _, _, _, _, hdeadline, _⟩ := h
    rw [nextDeadline, truncate_of_lt msg.block.lt, checkedAdd_eq_some] at hdeadline
    exact hdeadline.1
  obtain ⟨_, _, hpending, _, deadline, rfl⟩ := respondToMidpoint_ok h
  obtain ⟨hlow, hhigh, hmid⟩ := hg.pending_inside hpending
  have hlt := hg.rounds_lt (hg.pending_wide hpending)
  have hlowle := hg.low_le
  have hhighle := hg.high_le
  have hw := hg.width_le
  have hpow : 2 ^ (Nat.clog 2 (high - low) - r) = 2 * 2 ^ (Nat.clog 2 (high - low) - (r + 1)) := by
    rw [← pow_succ']
    congr 1
    omega
  unfold width at hw
  refine
    { status_eq := hg.status_eq
      low_le := ?_
      lt := ?_
      high_le := ?_
      depth_eq := ?_
      rounds_le := hlt
      width_le := ?_
      pending_inside := fun hp => absurd hp (by simp [passTurn, narrow])
      clock := ?_ }
  · cases agree <;> simp [passTurn, narrow] <;> omega
  · cases agree <;> simp [passTurn, narrow] <;> omega
  · cases agree <;> simp [passTurn, narrow] <;> omega
  · simp [passTurn, narrow, hg.depth_eq]
  · cases agree <;> simp only [width, passTurn, narrow] <;> simp <;> omega
  · simpa [passTurn, narrow, truncate_of_lt msg.block.lt] using hroom

end

theorem submitMidpoint_depthCap
    (h : g.submitMidpoint cfg msg midpointCommit = .error .depthCapExceeded) :
    maxBisectionDepth ≤ g.depth := by
  simp only [submitMidpoint, guard_eq_error, checked_eq_error, reduceCtorEq, and_false,
    false_or, and_true, exists_const] at h
  tauto

theorem respondToMidpoint_depthCap
    (h : g.respondToMidpoint cfg msg agree = .error .depthCapExceeded) :
    maxBisectionDepth ≤ g.depth := by
  simp only [respondToMidpoint, guard_eq_error, checked_eq_error, reduceCtorEq, and_false,
    false_or, and_true, or_false, exists_false] at h
  obtain ⟨_, _, _, _, _, _, _, hdepth⟩ := h
  exact Nat.le_of_lt_succ hdepth

end Game

/-- A play as the protocol wants it: the party on turn can move, midpoints lie
inside the range, the responses suffice to reach a single step, and the depth cap
is out of reach. -/
structure BisectionLaw (cfg : GameConfig) (low high : ℕ) (h : List PlayEntry)
    (g : Game) : Prop where
  not_stuck : g.NotStuck cfg
  pending_inside : g.hasPendingMidpoint = true →
    g.low.idx < g.pendingMidpoint.idx ∧ g.pendingMidpoint.idx < g.high.idx
  responses_le : responses h ≤ Nat.clog 2 (high - low)
  rounds_le : Nat.clog 2 (high - low) ≤ 64
  single_step : responses h = Nat.clog 2 (high - low) → g.SingleStep
  below_cap : ¬ g.SingleStep → ∀ msg,
    (∀ midpointCommit, g.submitMidpoint cfg msg midpointCommit ≠ .error .depthCapExceeded) ∧
    ∀ agree, g.respondToMidpoint cfg msg agree ≠ .error .depthCapExceeded

namespace Game

variable {cfg : GameConfig} {low high r : ℕ} {g : Game} {h : List PlayEntry}

theorem InPlay.singleStep_or_wide (hg : g.InPlay cfg low high r) : g.SingleStep ∨ 2 ≤ g.width := by
  by_cases hwide : 2 ≤ g.width
  · exact Or.inr hwide
  refine Or.inl ⟨hg.status_eq, ?_, ?_⟩
  · have := hg.lt
    unfold width at hwide
    omega
  · by_contra hpending
    exact hwide (hg.pending_wide (by simpa using hpending))

theorem InPlay.notStuck (hg : g.InPlay cfg low high r) (hhigh : high < 2 ^ 64)
    (hsum : 2 ≤ g.width → g.low.idx + g.high.idx < 2 ^ 64) : g.NotStuck cfg := by
  rcases hg.singleStep_or_wide with hsingle | hwide
  · exact Or.inl hsingle
  refine Or.inr ?_
  have hdepth := hg.depth_lt hhigh hwide
  by_cases hpending : g.hasPendingMidpoint = true
  · refine Or.inl ⟨hpending, ?_⟩
    intro msg agree hsender htime
    exact ⟨_, respondToMidpoint_eq hg.status_eq hpending hdepth hg.clock hsender htime⟩
  have hnone : g.hasPendingMidpoint = false := by simpa using hpending
  refine Or.inr ⟨hnone, hwide, ?_⟩
  intro msg midpointCommit hsender htime
  have hfit := hsum hwide
  have hrange : ¬ ((g.low.idx + g.high.idx) / 2 ≤ g.low.idx ∨
      g.high.idx ≤ (g.low.idx + g.high.idx) / 2) := by
    unfold width at hwide
    omega
  rw [submitMidpoint_eq hg.status_eq hnone hdepth hg.clock hsender htime,
    checkedAdd_eq_some.mpr ⟨hfit, rfl⟩]
  exact ⟨_, if_neg hrange⟩

theorem InPlay.bisectionLaw (hg : g.InPlay cfg low high (responses h)) (hhigh : high < 2 ^ 64)
    (hsum : 2 ≤ g.width → g.low.idx + g.high.idx < 2 ^ 64) : BisectionLaw cfg low high h g := by
  refine
    { not_stuck := hg.notStuck hhigh hsum
      pending_inside := fun hp => ⟨(hg.pending_inside hp).1, (hg.pending_inside hp).2.1⟩
      responses_le := hg.rounds_le
      rounds_le := clog_width_le hhigh
      single_step := ?_
      below_cap := ?_ }
  · intro hlast
    refine hg.singleStep_or_wide.resolve_right fun hwide => ?_
    exact absurd (hg.rounds_lt hwide) (by omega)
  intro hnot msg
  have hdepth := hg.depth_lt hhigh (hg.singleStep_or_wide.resolve_left hnot)
  exact ⟨fun _ hcap => absurd (submitMidpoint_depthCap hcap) (not_le.mpr hdepth),
    fun _ hcap => absurd (respondToMidpoint_depthCap hcap) (not_le.mpr hdepth)⟩

theorem inPlay_of_run {g₀ : Game} (hg₀ : g₀.InPlay cfg low high 0)
    (hrun : Run (bisection cfg) g₀ h g) : g.InPlay cfg low high (responses h) := by
  refine hrun.invariant hg₀ ?_
  intro h g move g' _ _ hg hstep
  cases move with
  | submit =>
    simp only [bisection, Option.map_eq_some_iff, Prod.mk.injEq, toOption_eq_some] at hstep
    obtain ⟨_, hmove, rfl, _⟩ := hstep
    exact hg.submit hmove
  | respond msg agree =>
    simp only [bisection, Option.map_eq_some_iff, Prod.mk.injEq, toOption_eq_some] at hstep
    obtain ⟨_, hmove, rfl, _⟩ := hstep
    have hcount : responses (⟨g, .respond msg agree, ()⟩ :: h) = responses h + 1 := by
      simp [responses]
    rw [hcount]
    exact hg.respond hmove

end Game

section Necessity

/-- A game at the start of a round, with `n` rounds of room on the clock. -/
structure Game.RoundStart (cfg : GameConfig) (n : ℕ) (g : Game) : Prop where
  status_eq : g.status = .inProgress
  not_pending : g.hasPendingMidpoint = false
  depth_le : g.depth + n ≤ maxBisectionDepth
  width_le : g.width ≤ 2 ^ n
  started : 0 < g.lastStepBlock
  deadline_eq : g.turnDeadline = g.lastStepBlock + cfg.bisectionResponseTimeout
  room : g.lastStepBlock + (2 * n + 1) * cfg.bisectionResponseTimeout < 2 ^ 64

variable {cfg : GameConfig} {n : ℕ} {g : Game}

/-- The party on turn, calling as early as it may. -/
def Game.promptMsg (cfg : GameConfig) (g : Game) (hpos : 0 < g.lastStepBlock)
    (hroom : g.lastStepBlock + cfg.bisectionResponseTimeout < 2 ^ 64) : Msg where
  sender := g.responsible
  value := 0
  block :=
    { number := g.lastStepBlock + cfg.minBisectionStepIntervalBlocks
      pos := Nat.add_pos_left hpos _
      lt := by
        have := cfg.interval_lt_timeout
        omega }

theorem Game.promptMsg_timely (hpos : 0 < g.lastStepBlock)
    (hroom : g.lastStepBlock + cfg.bisectionResponseTimeout < 2 ^ 64)
    (hdeadline : g.turnDeadline = g.lastStepBlock + cfg.bisectionResponseTimeout)
    (hnext : g.lastStepBlock + 2 * cfg.bisectionResponseTimeout < 2 ^ 64) :
    g.Timely cfg (g.promptMsg cfg hpos hroom) := by
  have := cfg.interval_lt_timeout
  refine ⟨?_, le_rfl, ?_⟩
  · rw [hdeadline]
    exact Nat.add_le_add_left this.le _
  · show g.lastStepBlock + cfg.minBisectionStepIntervalBlocks +
      cfg.bisectionResponseTimeout < 2 ^ 64
    omega

theorem Game.RoundStart.stuck (hg : g.RoundStart cfg (n + 1)) (hwide : 2 ≤ g.width)
    (hover : 2 ^ 64 ≤ g.low.idx + g.high.idx) : ¬ g.NotStuck cfg := by
  have hroom := hg.room
  have hclock : g.lastStepBlock + cfg.bisectionResponseTimeout < 2 ^ 64 := by nlinarith
  have hnext : g.lastStepBlock + 2 * cfg.bisectionResponseTimeout < 2 ^ 64 := by nlinarith
  rintro (hsingle | ⟨hpending, _⟩ | ⟨_, _, hmove⟩)
  · have := hsingle.2.1
    unfold width at hwide
    omega
  · rw [hg.not_pending] at hpending
    exact absurd hpending (by simp)
  obtain ⟨g', hok⟩ := hmove (g.promptMsg cfg hg.started hclock) 0 rfl
    (promptMsg_timely hg.started hclock hg.deadline_eq hnext)
  have hsum := (submitMidpoint_ok hok).2.2.2.2.1
  omega

/-- One round in which the responder agrees. -/
theorem Game.RoundStart.agreedRound (hg : g.RoundStart cfg (n + 1)) (hwide : 2 ≤ g.width)
    (hfit : g.low.idx + g.high.idx < 2 ^ 64) :
    ∃ h g', Run (bisection cfg) g h g' ∧ g'.RoundStart cfg n ∧
      g'.low.idx = (g.low.idx + g.high.idx) / 2 ∧ g'.high = g.high := by
  have hroom := hg.room
  have hclock : g.lastStepBlock + cfg.bisectionResponseTimeout < 2 ^ 64 := by nlinarith
  have hnext : g.lastStepBlock + 2 * cfg.bisectionResponseTimeout < 2 ^ 64 := by nlinarith
  have hthird : g.lastStepBlock + 3 * cfg.bisectionResponseTimeout < 2 ^ 64 := by nlinarith
  have hinterval := cfg.interval_lt_timeout
  have hdepth : g.depth < maxBisectionDepth := by
    have := hg.depth_le
    omega
  have hrange : ¬ ((g.low.idx + g.high.idx) / 2 ≤ g.low.idx ∨
      g.high.idx ≤ (g.low.idx + g.high.idx) / 2) := by
    unfold width at hwide
    omega
  -- the proposal
  have hsubmit := @submitMidpoint_eq cfg g (g.promptMsg cfg hg.started hclock) 0 hg.status_eq
    hg.not_pending hdepth hclock rfl
    (promptMsg_timely hg.started hclock hg.deadline_eq hnext)
  rw [checkedAdd_eq_some.mpr ⟨hfit, rfl⟩, checked, if_neg hrange] at hsubmit
  set msg₁ := g.promptMsg cfg hg.started hclock with hmsg₁
  set g₁ := (g.propose ⟨(g.low.idx + g.high.idx) / 2, 0⟩).passTurn
    (msg₁.block.number + cfg.bisectionResponseTimeout) msg₁.block with hg₁
  have hlast₁ : g₁.lastStepBlock = g.lastStepBlock + cfg.minBisectionStepIntervalBlocks :=
    truncate_of_lt msg₁.block.lt
  have hpos₁ : 0 < g₁.lastStepBlock := by
    rw [hlast₁]
    exact Nat.add_pos_left hg.started _
  have hclock₁ : g₁.lastStepBlock + cfg.bisectionResponseTimeout < 2 ^ 64 := by omega
  have hnext₁ : g₁.lastStepBlock + 2 * cfg.bisectionResponseTimeout < 2 ^ 64 := by omega
  have hdeadline₁ : g₁.turnDeadline = g₁.lastStepBlock + cfg.bisectionResponseTimeout := by
    rw [hlast₁]
    rfl
  -- the answer
  have hrespond := @respondToMidpoint_eq cfg g₁ (g₁.promptMsg cfg hpos₁ hclock₁) true
    hg.status_eq rfl hdepth hclock₁ rfl
    (promptMsg_timely hpos₁ hclock₁ hdeadline₁ hnext₁)
  set msg₂ := g₁.promptMsg cfg hpos₁ hclock₁ with hmsg₂
  set g₂ := (g₁.narrow true).passTurn
    (msg₂.block.number + cfg.bisectionResponseTimeout) msg₂.block with hg₂
  have hlast₂ : g₂.lastStepBlock = g₁.lastStepBlock + cfg.minBisectionStepIntervalBlocks :=
    truncate_of_lt msg₂.block.lt
  have hrun₁ : Run (bisection cfg) g [⟨g, .submit msg₁ 0, ()⟩] g₁ :=
    .snoc .nil (by simp only [bisection, hsubmit]; rfl)
  have hrun₂ : Run (bisection cfg) g [⟨g₁, .respond msg₂ true, ()⟩, ⟨g, .submit msg₁ 0, ()⟩] g₂ :=
    .snoc hrun₁ (by simp only [bisection, hrespond]; rfl)
  refine ⟨_, g₂, hrun₂, ?_, rfl, rfl⟩
  refine
    { status_eq := hg.status_eq
      not_pending := rfl
      depth_le := ?_
      width_le := ?_
      started := by omega
      deadline_eq := ?_
      room := ?_ }
  · have := hg.depth_le
    show g.depth + 1 + n ≤ maxBisectionDepth
    omega
  · have hw := hg.width_le
    show g.high.idx - (g.low.idx + g.high.idx) / 2 ≤ 2 ^ n
    unfold width at hw hwide
    omega
  · rw [hlast₂]
    rfl
  · rw [hlast₂, hlast₁]
    nlinarith

/-- A wide game whose upper end is beyond `2 ^ 63` can be played into a stuck
state by agreeing all the way. -/
theorem Game.RoundStart.exists_stuck (hg : g.RoundStart cfg n) (hwide : 2 ≤ g.width)
    (hhigh : 2 ^ 63 < g.high.idx) : ∃ h g', Run (bisection cfg) g h g' ∧ ¬ g'.NotStuck cfg := by
  induction n generalizing g with
  | zero =>
    have hw := hg.width_le
    omega
  | succ n ih =>
    by_cases hfit : g.low.idx + g.high.idx < 2 ^ 64
    · obtain ⟨h₁, g₁, hrun₁, hg₁, hlow, hsame⟩ := hg.agreedRound hwide hfit
      have hwide₁ : 2 ≤ g₁.width := by
        unfold width at hwide ⊢
        rw [hlow, hsame]
        omega
      obtain ⟨h₂, g₂, hrun₂, hstuck⟩ := ih hg₁ hwide₁ (by rwa [hsame])
      exact ⟨_, g₂, hrun₁.append hrun₂, hstuck⟩
    · exact ⟨[], g, .nil, hg.stuck hwide (not_lt.mp hfit)⟩

end Necessity

section Opened

variable {rcfg : RegistryConfig} {gcfg : GameConfig} {c c' : GameContract}
variable {reg reg' : Registry} {msg : Msg} {registryLocked : Bool}
variable {disputedLogIndex lowLogIndex : ℕ} {challengerCommit lowCommit : Bytes32}
variable {effs : List RegistryEffect}

/-- The game an accepted challenge opens. -/
theorem initiateChallenge_opens
    (h : c.initiateChallenge rcfg gcfg reg msg registryLocked disputedLogIndex
      challengerCommit lowCommit lowLogIndex = .ok (c', reg', effs)) :
    (c'.games c'.nextGameId).InPlay gcfg lowLogIndex disputedLogIndex 0 ∧
      disputedLogIndex < 2 ^ 64 ∧ (c'.games c'.nextGameId).low.idx = lowLogIndex ∧
      (c'.games c'.nextGameId).high.idx = disputedLogIndex ∧
      (c'.games c'.nextGameId).lastStepBlock = msg.block.number ∧
      (c'.games c'.nextGameId).hasPendingMidpoint = false ∧
      (c'.games c'.nextGameId).turnDeadline = msg.block.number + gcfg.bisectionResponseTimeout := by
  obtain ⟨hmay, deadline, hdeadline, rfl, _, _⟩ := GameContract.initiateChallenge_ok h
  rw [Game.nextDeadline, truncate_of_lt msg.block.lt, checkedAdd_eq_some] at hdeadline
  have hself : ∀ g value, (c.openGame g value).games (c.openGame g value).nextGameId =
      { g with pendingMidpoint := (c.games (c.nextGameId + 1)).pendingMidpoint } := by
    intro g value
    simp [GameContract.openGame, GameContract.setGame]
  rw [hself]
  have hlt := hmay.low_lt
  refine ⟨?_, hmay.disputed_lt, rfl, rfl, truncate_of_lt msg.block.lt, rfl, hdeadline.2⟩
  exact
    { status_eq := rfl
      low_le := le_rfl
      lt := hlt
      high_le := le_rfl
      depth_eq := rfl
      rounds_le := Nat.zero_le _
      width_le := Nat.le_pow_clog (by decide) _
      pending_inside := fun hp => absurd hp (by simp [GameContract.openedGame])
      clock := by
        have hlast : (GameContract.openedGame rcfg reg msg disputedLogIndex lowCommit
            lowLogIndex deadline).lastStepBlock = msg.block.number :=
          truncate_of_lt msg.block.lt
        simpa [hlast] using hdeadline.1 }

/-- A game that opens at a single step or below `2 ^ 63` keeps to the law. -/
theorem bisectionLaw_of_opened
    (h : c.initiateChallenge rcfg gcfg reg msg registryLocked disputedLogIndex
      challengerCommit lowCommit lowLogIndex = .ok (c', reg', effs))
    (hcond : disputedLogIndex = lowLogIndex + 1 ∨ disputedLogIndex ≤ 2 ^ 63)
    {play : List PlayEntry} {g : Game}
    (hrun : Run (bisection gcfg) (c'.games c'.nextGameId) play g) :
    BisectionLaw gcfg lowLogIndex disputedLogIndex play g := by
  obtain ⟨hplay, hlt, _⟩ := initiateChallenge_opens h
  have hg := Game.inPlay_of_run hplay hrun
  refine hg.bisectionLaw hlt fun hwide => ?_
  have h₁ := hg.low_le
  have h₂ := hg.high_le
  unfold Game.width at hwide
  omega

/-- Any other game has a stuck play, given time to play it. -/
theorem exists_stuck_of_opened
    (h : c.initiateChallenge rcfg gcfg reg msg registryLocked disputedLogIndex
      challengerCommit lowCommit lowLogIndex = .ok (c', reg', effs))
    (hroom : msg.block.number + 129 * gcfg.bisectionResponseTimeout < 2 ^ 64)
    (hwide : lowLogIndex + 2 ≤ disputedLogIndex) (hhigh : 2 ^ 63 < disputedLogIndex) :
    ∃ play g, Run (bisection gcfg) (c'.games c'.nextGameId) play g ∧ ¬ g.NotStuck gcfg := by
  obtain ⟨hplay, hlt, hlow, hend, hlast, hpending, hdeadline⟩ := initiateChallenge_opens h
  have hstart : (c'.games c'.nextGameId).RoundStart gcfg 64 :=
    { status_eq := hplay.status_eq
      not_pending := hpending
      depth_le := by
        rw [hplay.depth_eq]
        decide
      width_le := by
        unfold Game.width
        omega
      started := hlast ▸ msg.block.pos
      deadline_eq := by rw [hdeadline, hlast]
      room := by omega }
  refine hstart.exists_stuck ?_ (by omega)
  unfold Game.width
  omega

end Opened

section Ranges

variable {low high : ℕ}

def batchRegistry (low high : ℕ) : Registry :=
  { @Registry.construct zeroKeccak sampleDeployment.registry sampleDeployment.block with
    roots := Function.update
      (fun _ => { SubmittedRoot.absent with submittedAtBlock := 1 }) high
      { SubmittedRoot.absent with submittedAtBlock := 1, prevEndIndex := low } }

theorem batchRegistry_challenge (hlt : low < high) (hhigh : high < 2 ^ 64) :
    ∃ r, GameContract.construct.initiateChallenge sampleDeployment.registry
      sampleDeployment.game (batchRegistry low high) (sampleTx 6 10 1 .withdraw).msg false
      high 1 0 low = .ok r := by
  have hself : (batchRegistry low high).roots high =
      { SubmittedRoot.absent with submittedAtBlock := 1, prevEndIndex := low } := by
    simp [batchRegistry]
  have hbelow : (batchRegistry low high).roots low =
      { SubmittedRoot.absent with submittedAtBlock := 1 } := by
    simp [batchRegistry, Function.update_of_ne hlt.ne]
  have hrecord : (batchRegistry low high).MayDispute high := by
    refine ⟨?_, ?_, ?_, ?_⟩
    · simp [Registry.Exists, hself]
    · rintro ⟨_, _, hstamp⟩
      exact absurd hstamp (by simp [batchRegistry, Registry.construct])
    · rw [hself]
      rfl
    · rw [hself]
      rfl
  have hdeadline : Game.nextDeadline sampleDeployment.game
      (sampleTx 6 10 1 .withdraw).msg.block = some 6 := by decide
  refine GameContract.MayOpen.initiateChallenge
    { disputed_lt := hhigh
      value_eq := rfl
      no_game := rfl
      low_lt := hlt
      record := hrecord
      commit_ne := ?_
      low_eq := ?_
      low_exists := ?_
      lowCommit_eq := ?_ } hdeadline
  · rw [hself]
    simp [SubmittedRoot.absent]
  · rw [hself]
  · simp [Registry.Exists, hbelow]
  · rw [hbelow]
    rfl

/--
For every range of log indices, the plays of all games opened on it keep to the
bisection law if and only if the range is a single step or its upper end is at
most `2 ^ 63`.
-/
theorem bisection_never_stuck_iff
    (hlt : low < high)
    (hhigh : high < 2 ^ 64) :
    (∀ rcfg gcfg c reg msg registryLocked challengerCommit lowCommit c' reg' effs,
      GameContract.initiateChallenge rcfg gcfg c reg msg registryLocked high
        challengerCommit lowCommit low = .ok (c', reg', effs) →
      ∀ play g,
        Run (bisection gcfg) (c'.games c'.nextGameId) play g →
        BisectionLaw gcfg low high play g) ↔
    high = low + 1 ∨ high ≤ 2 ^ 63 := by
  constructor
  · intro hlaw
    by_contra hcond
    push Not at hcond
    obtain ⟨⟨c', reg', effs⟩, hopen⟩ := batchRegistry_challenge hlt hhigh
    obtain ⟨play, g, hrun, hstuck⟩ := exists_stuck_of_opened hopen (by decide) (by omega) hcond.2
    exact hstuck (hlaw _ _ _ _ _ _ _ _ _ _ _ hopen play g hrun).not_stuck
  · intro hcond rcfg gcfg c reg msg registryLocked challengerCommit lowCommit c' reg' effs
      hopen play g hrun
    exact bisectionLaw_of_opened hopen hcond hrun

/-- A game on the range from `0` to `4` never gets stuck. -/
theorem bisection_never_stuck_short_range :
    ∃ c' reg' effs,
      GameContract.construct.initiateChallenge sampleDeployment.registry
          sampleDeployment.game (batchRegistry 0 4) (sampleTx 6 10 1 .withdraw).msg false
          4 1 0 0 = .ok (c', reg', effs) ∧
      ∀ play g, Run (bisection sampleDeployment.game) (c'.games c'.nextGameId) play g →
        BisectionLaw sampleDeployment.game 0 4 play g := by
  obtain ⟨⟨c', reg', effs⟩, hopen⟩ := @batchRegistry_challenge 0 4 (by decide) (by decide)
  exact ⟨c', reg', effs, hopen,
    (@bisection_never_stuck_iff 0 4 (by decide) (by decide)).mpr
      (Or.inr (by decide)) _ _ _ _ _ _ _ _ _ _ _ hopen⟩

end Ranges

/-- Two batches, the second of two entries just above `2 ^ 63`, and a challenge. -/
def highBatchRun : List (Tx Unit) :=
  [ sampleTx 1 10 2 (.submitStateRoot (2 ^ 63) 0 2 0),
    sampleTx 1 10 3 (.submitStateRoot (2 ^ 63 + 2) (2 ^ 63) 3 0),
    sampleTx 6 10 4 (.initiateChallenge false (2 ^ 63 + 2) 9 2 (2 ^ 63)) ]

/-- The party on turn of an opened game of width two cannot propose its midpoint:
the sum of the bounds overflows. -/
theorem high_batch_midpoint_overflows :
    ∃ (h : List (HistoryEntry Unit)) (w : World), Run sampleSystem sampleStart h w ∧
      (w.game.games 1).status = .inProgress ∧
      (w.game.games 1).hasPendingMidpoint = false ∧ (w.game.games 1).width = 2 ∧
      (sampleTx 1 0 6 .withdraw).msg.sender = (w.game.games 1).responsible ∧
      (w.game.games 1).Timely sampleDeployment.game (sampleTx 1 0 6 .withdraw).msg ∧
      (w.game.games 1).submitMidpoint sampleDeployment.game (sampleTx 1 0 6 .withdraw).msg 0 =
        .error .arithmeticPanic := by
  have hsome : (sampleSystem.exec sampleStart highBatchRun).isSome := by decide
  obtain ⟨⟨h, w⟩, hexec⟩ := Option.isSome_iff_exists.mp hsome
  have hgame : ((sampleSystem.exec sampleStart highBatchRun).map fun p =>
      p.2.game.games 1) = some
        { sequencer := 1
          challenger := 6
          low := ⟨2 ^ 63, 2⟩
          high := ⟨2 ^ 63 + 2, 3⟩
          hasPendingMidpoint := false
          pendingMidpoint := ⟨0, 0⟩
          depth := 0
          turn := .sequencer
          turnDeadline := 9
          sequencerBond := 0
          challengerBond := 10
          status := .inProgress
          deploymentId := 0
          lastStepBlock := 4
          disputedLogIndex := 2 ^ 63 + 2 } := by decide
  rw [hexec, Option.map_some, Option.some.injEq] at hgame
  refine ⟨h, w, Run.of_exec hexec, ?_⟩
  rw [hgame]
  exact ⟨rfl, rfl, rfl, rfl, ⟨by decide, by decide, by decide⟩, rfl⟩

end Knomosis.Contracts
