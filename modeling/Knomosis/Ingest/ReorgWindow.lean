import Knomosis.Ingest.Watcher

/-!
# The window of headers

A header is taken into the window exactly if one of the headers there is its parent.
What stood above the parent is dropped.
-/

namespace Knomosis.Ingest

open List
namespace ReorgWindow

variable {w : ReorgWindow} {incoming p : BlockHeader} {pre post : List BlockHeader}

/-- A header and the next one of a chain. -/
def Follows (p h : BlockHeader) : Prop :=
  h.number.toNat = p.number.toNat + 1 ∧ h.parentHash = p.hash

structure Linear (w : ReorgWindow) : Prop where
  room : 0 < w.capacity
  linked : w.buffer.IsChain Follows
  fits : w.buffer.length ≤ w.capacity
  bounded : ∀ h ∈ w.buffer, h.number.toNat < 2 ^ 64 - 1

/-- What is reported about the headers that are dropped for the incoming one. -/
def report : List BlockHeader → AdvanceOutcome
  | [] => .advanced
  | first :: rest => .reorged (rest.length + 1) first.number

theorem toNat_succ {n : UInt64} (h : n.toNat < 2 ^ 64 - 1) : (n + 1).toNat = n.toNat + 1 := by
  rw [UInt64.toNat_add]
  exact Nat.mod_eq_of_lt (Nat.add_lt_of_lt_sub h)

section

variable (hw : w.Linear)
include hw

theorem Linear.ascending : w.buffer.Pairwise fun a b => a.number.toNat < b.number.toNat :=
  (hw.linked.imp fun _ _ h => h.1 ▸ Nat.lt_succ_self _).pairwise

theorem Linear.follows_iff (hp : p ∈ w.buffer) :
    p.hash = incoming.parentHash ∧ p.number + 1 = incoming.number ↔ Follows p incoming := by
  rw [Follows, ← toNat_succ (hw.bounded p hp), UInt64.toNat_inj, eq_comm (b := p.hash),
    eq_comm (a := incoming.number), and_comm]

theorem Linear.split (hbuffer : w.buffer = pre ++ p :: post) (hp : Follows p incoming) :
    (∀ h ∈ pre ++ [p], h.number < incoming.number) ∧ ∀ h ∈ post, incoming.number ≤ h.number := by
  have hasc := hw.ascending
  rw [hbuffer, pairwise_append, pairwise_cons] at hasc
  have hnumber := hp.1
  constructor
  · intro h hh
    rw [UInt64.lt_iff_toNat_lt]
    rcases mem_append.mp hh with hpre | hlast
    · have := hasc.2.2 h hpre p mem_cons_self
      omega
    · rw [mem_singleton.mp hlast]
      omega
  · intro h hh
    have := hasc.2.1.1 h hh
    rw [UInt64.le_iff_toNat_le]
    omega

theorem Linear.parentIndex_eq (hbuffer : w.buffer = pre ++ p :: post)
    (hp : Follows p incoming) : w.parentIndex incoming = some pre.length := by
  have hmem : p ∈ w.buffer := by simp [hbuffer]
  have hpost : (post.zipIdx (0 + pre.length + 1)).reverse.find? (fun q =>
      q.1.hash = incoming.parentHash ∧ q.1.number + 1 = incoming.number) = none := by
    rw [List.find?_eq_none]
    rintro ⟨h, i⟩ hh
    have hin := (mem_zipIdx (mem_reverse.mp hh)).2.2 ▸ getElem_mem _
    have hbelow := UInt64.le_iff_toNat_le.mp ((hw.split hbuffer hp).2 h hin)
    rw [decide_eq_true_iff, hw.follows_iff (by simp [hbuffer, hin])]
    rintro ⟨hnumber, -⟩
    dsimp only at hnumber
    omega
  rw [parentIndex, hbuffer, zipIdx_append, zipIdx_cons, reverse_append,
    reverse_cons, append_assoc, List.find?_append, hpost]
  simp [(hw.follows_iff hmem).mpr hp]

theorem Linear.advance_eq (hbuffer : w.buffer = pre ++ p :: post)
    (hp : Follows p incoming) :
    w.advance incoming = .ok (report post, { w with
        buffer := (pre ++ [p]).drop (if post = [] ∧ w.buffer.length = w.capacity then 1 else 0) ++
          [incoming] }) := by
  obtain ⟨hpre, hpost⟩ := hw.split hbuffer hp
  have hne : w.buffer ≠ [] := by simp [hbuffer]
  have htail : ¬ incoming.number ≤ (w.buffer.head hne).number := by
    rw [UInt64.not_le]
    refine hpre _ (mem_of_mem_head? (Option.mem_def.mpr ?_))
    rw [← List.head?_eq_some_head hne, hbuffer]
    cases pre <;> rfl
  rw [advance, List.head?_eq_some_head hne, List.getLast?_eq_some_getLast hne]
  simp only [if_neg htail]
  cases post with
  | nil =>
    have hlast : w.buffer.getLast hne = p := by simp [hbuffer]
    have htest := (hw.follows_iff (by simp [hbuffer])).mpr hp
    rw [hlast, if_pos ⟨htest.2.symm, htest.1.symm⟩, makeRoom, hbuffer]
    simp only [true_and]
    split_ifs <;> rfl
  | cons first post =>
    have hlast : w.buffer.getLast hne ∈ first :: post := by simp [hbuffer]
    have hle := hpost _ hlast
    have hlt : ¬ (incoming.number = (w.buffer.getLast hne).number + 1 ∧
        incoming.parentHash = (w.buffer.getLast hne).hash) := by
      rintro ⟨hnumber, -⟩
      have := toNat_succ (hw.bounded _ (getLast_mem hne))
      rw [hnumber, UInt64.le_iff_toNat_le] at hle
      omega
    rw [if_neg hlt, if_pos hle, replaceAfterParent, hw.parentIndex_eq hbuffer hp, hbuffer]
    simp [take_append, report]
    omega

theorem Linear.advance_error (hne : w.buffer ≠ [])
    (hnone : ∀ p ∈ w.buffer, ¬ Follows p incoming) : ∃ e, w.advance incoming = .error e := by
  have hparent : w.parentIndex incoming = none := by
    rw [parentIndex, Option.map_eq_none_iff, List.find?_eq_none]
    rintro ⟨h, i⟩ hh
    have hin := (mem_zipIdx (mem_reverse.mp hh)).2.2 ▸ getElem_mem _
    rw [decide_eq_true_iff, hw.follows_iff hin]
    exact hnone h hin
  have hlast := hnone _ (getLast_mem hne)
  rw [← hw.follows_iff (getLast_mem hne)] at hlast
  rw [advance, List.head?_eq_some_head hne, List.getLast?_eq_some_getLast hne]
  simp only [replaceAfterParent, hparent]
  split_ifs with h1 h2
  · exact ⟨_, rfl⟩
  · exact absurd ⟨h2.2.symm, h2.1.symm⟩ hlast
  all_goals exact ⟨_, rfl⟩

theorem Linear.replaced (hbuffer : w.buffer = pre ++ p :: post)
    (hp : Follows p incoming) (hin : incoming.number.toNat < 2 ^ 64 - 1) :
    ({ w with
      buffer := (pre ++ [p]).drop (if post = [] ∧ w.buffer.length = w.capacity then 1 else 0) ++
        [incoming] } : ReorgWindow).Linear := by
  have hlinked := hw.linked
  rw [hbuffer, append_cons] at hlinked
  have hchain : (pre ++ [p] ++ [incoming]).IsChain Follows := by
    refine isChain_append.mpr ⟨hlinked.left_of_append, by simp, ?_⟩
    simpa using hp
  refine ⟨hw.room, hchain.suffix ?_, ?_, ?_⟩
  · exact ⟨_, by rw [← append_assoc, take_append_drop]⟩
  · have hfits := hw.fits
    rw [hbuffer] at hfits ⊢
    cases post with
    | nil =>
      simp at hfits ⊢
      split_ifs <;> omega
    | cons =>
      simp at hfits ⊢
      omega
  · intro h hh
    rcases mem_append.mp hh with hkept | hnew
    · refine hw.bounded h ?_
      rw [hbuffer, append_cons]
      exact mem_append_left _ (mem_of_mem_drop hkept)
    · rwa [mem_singleton.mp hnew]

end

/-- A header is taken exactly if the window is empty or has its parent; the headers below it are
kept. -/
theorem advance_spec
    (w : ReorgWindow)
    (incoming : BlockHeader)
    (hw : w.Linear)
    (hin : incoming.number.toNat < 2 ^ 64 - 1) :
    ((∃ r, w.advance incoming = .ok r) ↔
      w.buffer = [] ∨ ∃ p ∈ w.buffer, Follows p incoming) ∧
    ∀ outcome w',
      w.advance incoming = .ok (outcome, w') →
      w'.Linear ∧
      w'.capacity = w.capacity ∧
      ∃ removed,
        removed = w.buffer.filter (incoming.number ≤ ·.number) ∧
        outcome = report removed ∧
        w'.buffer = (w.buffer.filter (·.number < incoming.number)).drop
          (if removed = [] ∧ w.buffer.length = w.capacity then 1 else 0) ++ [incoming] := by
  by_cases hempty : w.buffer = []
  · have hok : w.advance incoming = .ok (.advanced, { w with buffer := [incoming] }) := by
      simp [advance, hempty]
    refine ⟨by simp [hok, hempty], ?_⟩
    rintro outcome w' h
    rw [hok] at h
    cases h
    refine ⟨⟨hw.room, by simp, hw.room, by simpa using hin⟩, rfl, [], ?_⟩
    simp [hempty, report]
  by_cases hparent : ∃ p ∈ w.buffer, Follows p incoming
  · obtain ⟨p, hp, hfollows⟩ := hparent
    obtain ⟨pre, post, hbuffer⟩ := append_of_mem hp
    have hok := hw.advance_eq hbuffer hfollows
    refine ⟨⟨fun _ => .inr ⟨p, hp, hfollows⟩, fun _ => ⟨_, hok⟩⟩, ?_⟩
    rintro outcome w' h
    rw [hok] at h
    cases h
    obtain ⟨hpre, hpost⟩ := hw.split hbuffer hfollows
    have hkept : w.buffer.filter (·.number < incoming.number) = pre ++ [p] := by
      rw [hbuffer, append_cons, filter_append,
        filter_eq_self.mpr (by simpa using hpre), filter_eq_nil_iff.mpr (by simpa using hpost),
        append_nil]
    have hremoved : w.buffer.filter (incoming.number ≤ ·.number) = post := by
      rw [hbuffer, append_cons, filter_append,
        filter_eq_nil_iff.mpr (by simpa using hpre), filter_eq_self.mpr (by simpa using hpost),
        nil_append]
    exact ⟨hw.replaced hbuffer hfollows hin, rfl, post, hremoved.symm, rfl, by rw [hkept]⟩
  · obtain ⟨e, herror⟩ := hw.advance_error hempty fun p hp h => hparent ⟨p, hp, h⟩
    simp [herror, hempty, hparent]

def header (number : UInt64) (hash parentHash : UInt8) : BlockHeader :=
  ⟨number, ⟨List.replicate 32 hash, rfl⟩, ⟨List.replicate 32 parentHash, rfl⟩⟩

/-- Another second block is put in the place of the one in the window. -/
theorem advance_spec_sibling :
    ∃ w', advance ⟨2, [header 1 5 4, header 2 6 5]⟩ (header 2 7 5) = .ok (.reorged 1 2, w') ∧
      w'.Linear := by
  refine ⟨_, rfl, ((advance_spec ⟨2, [header 1 5 4, header 2 6 5]⟩ (header 2 7 5) ?_ ?_).2 _ _
    rfl).1⟩
  · exact ⟨by decide, by simp [Follows, header], by decide, by decide⟩
  · decide

end ReorgWindow
end Knomosis.Ingest
