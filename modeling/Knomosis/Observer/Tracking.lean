import Knomosis.Observer.Records

/-!
# Copies that follow the contract

A place in the chain is a list of transactions from which the chain goes on.  The
observer has handled the events up to one place, and the reader answers from
another, the head.  A copy of a game is right at a place when the contract had it
there, or in a block that begins no earlier.

Events that a right copy has not heard keep it right, with one exception: a copy
that was read ahead with a midpoint pending takes the answer to an older midpoint
for an answer to this one.  Such a copy has gone astray.
-/

namespace Knomosis.Observer

open Lib Contracts Kernel List ObserverHost

section Places

variable {τ : Type} {d : Deployment} {s : ObserverHost τ}

/-- Every transaction carries the number of its block. -/
def WellMined (d : Deployment) (s : ObserverHost τ) : Prop :=
  ∀ i txs, s.chain[i]? = some txs → ∀ tx ∈ txs, tx.msg.block.number = d.block.number + i + 1

theorem txsAt_head : s.txsAt d (s.head d) = s.chain.flatten := by
  rw [ObserverHost.txsAt, ObserverHost.head, Nat.add_sub_cancel_left, take_length]

variable {n : ℕ} {txs past : List (Tx τ)} {tx : Tx τ}

theorem txsAt_mono {m : ℕ} (h : m ≤ n) : s.txsAt d m <+: s.txsAt d n := by
  obtain ⟨k, hk⟩ := take_prefix_take_left (l := s.chain) (Nat.sub_le_sub_right h d.block.number)
  refine ⟨k.flatten, ?_⟩
  rw [txsAt, txsAt, ← flatten_append, hk]

theorem txsAt_isPrefixOf (n : ℕ) : s.txsAt d n <+: s.chain.flatten := by
  obtain ⟨k, hk⟩ := take_prefix (n - d.block.number) s.chain
  refine ⟨k.flatten, ?_⟩
  rw [txsAt, ← flatten_append, hk]

theorem txsAt_eq (n : ℕ) : s.txsAt d n = s.txsAt d (n - 1) ++ s.blockTxs d n := by
  unfold txsAt blockTxs
  split_ifs with hn
  · rw [Nat.sub_eq_zero_of_le hn, Nat.sub_eq_zero_of_le ((Nat.sub_le n 1).trans hn), append_nil]
  obtain ⟨k, rfl⟩ : ∃ k, n = d.block.number + k + 1 := ⟨n - d.block.number - 1, by omega⟩
  have h₁ : d.block.number + k + 1 - d.block.number = k + 1 := by omega
  have h₂ : d.block.number + k + 1 - 1 - d.block.number = k := by omega
  rw [h₁, h₂, take_add_one, flatten_append, Nat.add_sub_cancel]
  cases hk : s.chain[k]? <;> simp [hk]

theorem txsAt_mine (hn : n ≤ s.head d) :
    ObserverHost.txsAt d { s with chain := s.chain ++ [txs] } n = s.txsAt d n := by
  have hlen : n - d.block.number ≤ s.chain.length := by
    rw [ObserverHost.head] at hn
    omega
  simp only [ObserverHost.txsAt]
  rw [take_append_of_le_length hlen]

theorem WellMined.mine (h : WellMined d s) (htxs : ∀ tx ∈ txs, tx.msg.block.number = s.head d + 1) :
    WellMined d { s with chain := s.chain ++ [txs] } := by
  intro i txs' hi tx htx
  rcases lt_or_ge i s.chain.length with hlt | hge
  · rw [List.getElem?_append_left hlt] at hi
    exact h i txs' hi tx htx
  rw [List.getElem?_append_right hge, List.getElem?_singleton] at hi
  split_ifs at hi with hzero
  cases hi
  rw [htxs tx htx, ObserverHost.head]
  omega

theorem WellMined.number_gt (h : WellMined d s) (hpast : s.txsAt d n <+: past)
    (htx : past ++ [tx] <+: s.chain.flatten) : n < tx.msg.block.number := by
  obtain ⟨between, rfl⟩ := hpast
  have hsplit : s.chain.flatten = s.txsAt d n ++ (s.chain.drop (n - d.block.number)).flatten := by
    rw [txsAt, ← flatten_append, take_append_drop]
  rw [hsplit, append_assoc, prefix_append_right_inj] at htx
  have hmem : tx ∈ (s.chain.drop (n - d.block.number)).flatten := htx.subset (by simp)
  obtain ⟨txs, htxs, hin⟩ := mem_flatten.mp hmem
  obtain ⟨i, hi⟩ := mem_iff_getElem?.mp htxs
  rw [List.getElem?_drop] at hi
  have hnumber := h _ _ hi tx hin
  omega

theorem place_cases {place all : List (Tx τ)} (hpast : past <+: place) (hplace : place <+: all)
    (htx : past ++ [tx] <+: all) : place = past ∨ past ++ [tx] <+: place := by
  rcases prefix_or_prefix_of_prefix hplace htx with hle | hge
  · rcases prefix_concat_iff.mp hle with heq | hle
    · exact .inr (heq ▸ prefix_refl _)
    · exact .inl (hpast.eq_of_length_le hle.length_le).symm
  · exact .inr hge

/-- The logs of consecutive blocks are the logs along their transactions. -/
theorem logs_range [Keccak] (adjudicate : Adjudicator τ) (d : Deployment)
    (s : ObserverHost τ) (first count : ℕ) :
    ∃ txs, s.txsAt d (first - 1) ++ txs = s.txsAt d (first + count - 1) ∧
      (List.range' first count).flatMap (s.logsInBlock adjudicate d) =
        World.logsAlong adjudicate d (s.txsAt d (first - 1)) txs := by
  induction count with
  | zero => exact ⟨[], append_nil _, rfl⟩
  | succ count ih =>
    obtain ⟨txs, htxs, hlogs⟩ := ih
    refine ⟨txs ++ s.blockTxs d (first + count), ?_, ?_⟩
    · rw [← append_assoc, htxs, ← txsAt_eq]
      rfl
    · rw [List.range'_concat, flatMap_append, hlogs, World.logsAlong_append, htxs]
      simp [logsInBlock]

end Places

section Copies

variable {τ : Type} [Keccak] (adjudicate : Adjudicator τ) (d : Deployment)

/-- The notice that a transaction gives of a move in one game. -/
def noticeAt (past : List (Tx τ)) (tx : Tx τ) (gameId : ℕ) : Option (Notice Bytes32) :=
  (World.runTx adjudicate d (World.afterTxs adjudicate d past) tx).2.bind
    (GameEvent.noticeOf gameId)

/-- The contract had this bisection at a place, or in a block that begins no earlier. -/
def Right (s : ObserverHost τ) (past : List (Tx τ)) (gameId : ℕ) (u : Bisection Bytes32) : Prop :=
  u = (World.gameAfter adjudicate d past gameId).view ∨
    ∃ n ≤ s.head d, past <+: s.txsAt d n ∧ u = (s.gameAt adjudicate d n gameId).view

/-- An old answer was taken for an answer to a pending midpoint, and the contract has not
answered that midpoint yet, or has answered it the other way. -/
inductive Astray (s : ObserverHost τ) (past : List (Tx τ)) (gameId : ℕ) : Bisection Bytes32 → Prop
  | misled {v : Bisection Bytes32} {m : Mark Bytes32} (agree : Bool)
      (hright : Right adjudicate d s past gameId v)
      (hsound : v.Sound)
      (hpending : v.pending = some m) :
      Astray s past gameId (v.answer agree m)
  | beside {u : Bisection Bytes32}
      (hbeside : u.Beside (World.gameAfter adjudicate d past gameId).view)
      (hpending : u.pending = none)
      (hturn : u.turn = false) :
      Astray s past gameId u

end Copies

section Laws

variable {τ : Type} [Keccak] {adjudicate : Adjudicator τ} {d : Deployment}
variable {s : ObserverHost τ} {past : List (Tx τ)} {tx : Tx τ} {gameId : ℕ}
variable {u : Bisection Bytes32} {n : Notice Bytes32}

theorem right_head (hpast : past <+: s.chain.flatten) :
    Right adjudicate d s past gameId (s.gameAt adjudicate d (s.head d) gameId).view :=
  .inr ⟨s.head d, le_rfl, txsAt_head ▸ hpast, rfl⟩

/-- A right copy is level with the place before a transaction, or ahead of the place after it. -/
theorem Right.cases (h : Right adjudicate d s past gameId u)
    (htx : past ++ [tx] <+: s.chain.flatten) :
    u = (World.gameAfter adjudicate d past gameId).view ∨
      ∃ n ≤ s.head d, past ++ [tx] <+: s.txsAt d n ∧ u = (s.gameAt adjudicate d n gameId).view := by
  rcases h with hlevel | ⟨n, hn, hpast, rfl⟩
  · exact .inl hlevel
  rcases place_cases hpast (txsAt_isPrefixOf n) htx with heq | hahead
  · left
    rw [gameAt, heq]
  · exact .inr ⟨n, hn, hahead, rfl⟩

section

variable (hopened : (World.afterTxs adjudicate d past).game.Opened gameId)
include hopened

theorem sound_gameAfter : (World.gameAfter adjudicate d past gameId).view.Sound :=
  (World.placed_afterTxs adjudicate d past gameId hopened).sound

theorem opened_onward {place : List (Tx τ)} (hplace : past <+: place) :
    (World.afterTxs adjudicate d place).game.Opened gameId := by
  obtain ⟨more, rfl⟩ := hplace
  exact World.opened_append hopened more

theorem reaches_onward {place : List (Tx τ)} (hplace : past <+: place) :
    Bisection.Reaches maxBisectionDepth (World.gameAfter adjudicate d past gameId).view
      (World.gameAfter adjudicate d place gameId).view := by
  obtain ⟨more, rfl⟩ := hplace
  exact World.reaches_append hopened more

theorem change_noticeAt (tx : Tx τ) :
    Game.Change d.game tx.msg (World.gameAfter adjudicate d past gameId)
      (noticeAt adjudicate d past tx gameId) (World.gameAfter adjudicate d (past ++ [tx]) gameId) :=
  World.gameAfter_snoc hopened tx

theorem view_snoc (hnotice : noticeAt adjudicate d past tx gameId = none) :
    (World.gameAfter adjudicate d (past ++ [tx]) gameId).view =
      (World.gameAfter adjudicate d past gameId).view := by
  have hchange := change_noticeAt hopened tx
  rw [hnotice] at hchange
  exact hchange.silent.1

theorem change_snoc (hnotice : noticeAt adjudicate d past tx gameId = some n) :
    Game.Change d.game tx.msg (World.gameAfter adjudicate d past gameId) (some n)
      (World.gameAfter adjudicate d (past ++ [tx]) gameId) := by
  have hchange := change_noticeAt hopened tx
  rwa [hnotice] at hchange

theorem Right.silent (h : Right adjudicate d s past gameId u)
    (htx : past ++ [tx] <+: s.chain.flatten)
    (hnotice : noticeAt adjudicate d past tx gameId = none) :
    Right adjudicate d s (past ++ [tx]) gameId u := by
  rcases h.cases htx with rfl | hahead
  · exact .inl (view_snoc hopened hnotice).symm
  · exact .inr hahead

/-- A right copy that hears a notice stays right, or takes an old answer. -/
theorem Right.hear (h : Right adjudicate d s past gameId u) (htx : past ++ [tx] <+: s.chain.flatten)
    (hnotice : noticeAt adjudicate d past tx gameId = some n) :
    Right adjudicate d s (past ++ [tx]) gameId (u.hear maxBisectionDepth n) ∨
      ∃ k ≤ s.head d, past ++ [tx] <+: s.txsAt d k ∧ u = (s.gameAt adjudicate d k gameId).view ∧
        ∃ agree m, n = .answered agree ∧ u.pending = some m ∧
          u.hear maxBisectionDepth n = u.answer agree m := by
  have hmoves := (change_snoc hopened hnotice).moves
  rcases h.cases htx with rfl | ⟨k, hk, hahead, rfl⟩
  · rw [hmoves.hear_eq]
    exact .inl (.inl rfl)
  have hopened' := opened_onward hopened (prefix_append past [tx])
  have hreach := reaches_onward hopened' hahead
  rcases Bisection.hear_ahead (sound_gameAfter hopened) hmoves hreach with hsame | hmisled
  · left
    right
    exact ⟨k, hk, hahead, hsame⟩
  · exact .inr ⟨k, hk, hahead, rfl, hmisled⟩

theorem Astray.silent (h : Astray adjudicate d s past gameId u)
    (htx : past ++ [tx] <+: s.chain.flatten)
    (hnotice : noticeAt adjudicate d past tx gameId = none) :
    Astray adjudicate d s (past ++ [tx]) gameId u := by
  cases h with
  | misled agree hright hsound hpending =>
    exact .misled agree (hright.silent hopened htx hnotice) hsound hpending
  | beside hbeside hpending hturn =>
    rw [← view_snoc hopened hnotice] at hbeside
    exact .beside hbeside hpending hturn

end

omit [Keccak] in
theorem turn_answer {v : Bisection Bytes32} {m : Mark Bytes32} (hsound : v.Sound)
    (hpending : v.pending = some m) (agree : Bool) : (v.answer agree m).turn = false := by
  have hturn : v.turn = true := by
    rw [hsound.turn_eq, hpending]
    rfl
  exact congrArg not hturn

theorem Astray.turn_eq (h : Astray adjudicate d s past gameId u) : u.turn = false := by
  cases h with
  | misled agree _ hsound hpending => exact turn_answer hsound hpending agree
  | beside _ _ hturn => exact hturn

/-- A copy that has gone astray hears nothing, until the contract gives the same answer. -/
theorem Astray.hear (h : Astray adjudicate d s past gameId u)
    (hopened : (World.afterTxs adjudicate d past).game.Opened gameId)
    (htx : past ++ [tx] <+: s.chain.flatten)
    (hnotice : noticeAt adjudicate d past tx gameId = some n) :
    u.hear maxBisectionDepth n = u ∧
    (Right adjudicate d s (past ++ [tx]) gameId u ∨
      Astray adjudicate d s (past ++ [tx]) gameId u) := by
  have hmoves := (change_snoc hopened hnotice).moves
  cases h with
  | misled agree hright hsound hpending =>
    rcases hright.cases htx with rfl | ⟨k, hk, hahead, rfl⟩
    · obtain ⟨hsame, hlevel | hbeside⟩ := Bisection.hear_misled_level hpending hmoves agree
      · exact ⟨hsame, .inl (.inl hlevel)⟩
      · exact ⟨hsame, .inr (.beside hbeside rfl (turn_answer hsound hpending agree))⟩
    have hopened' := opened_onward hopened (prefix_append past [tx])
    have hreach := reaches_onward hopened' hahead
    refine ⟨?_, .inr (.misled agree (.inr ⟨k, hk, hahead, rfl⟩) hsound hpending)⟩
    exact Bisection.hear_misled_ahead (sound_gameAfter hopened) hmoves hreach hpending agree
  | beside hbeside hpending hturn =>
    obtain ⟨hsame, hbeside'⟩ :=
      Bisection.hear_beside (sound_gameAfter hopened) hbeside hpending hmoves
    exact ⟨hsame, .inr (.beside hbeside' hpending hturn)⟩

end Laws

end Knomosis.Observer
