import Knomosis.Lib.Machine
import Mathlib.Tactic

/-!
# The fan-out ring

The gateway keeps the newest records of the upstream log in one ring, which feeds
every client.  A record is taken if its cursor is after the last one taken, and the
oldest records are dropped when the ring is full.  `Fed` says what a ring holds after
the records that it has taken since it was empty, and from it follows what a client
may conclude from the position of its cursor.
-/

namespace Knomosis.Gateway

open List

section Cursors

/-- The place of a record in the log: its sequence number and its index among the same. -/
structure Cursor where
  seq : ℕ
  index : ℕ
deriving DecidableEq

/-- The largest index within a number. -/
def U32_MAX : ℕ := 2 ^ 32 - 1

namespace Cursor

variable {c d x : Cursor}

instance : LinearOrder Cursor :=
  LinearOrder.lift' (fun c => toLex (c.seq, c.index)) fun c d h => by
    cases c
    cases d
    simpa using h

theorem lt_iff : c < d ↔ c.seq < d.seq ∨ c.seq = d.seq ∧ c.index < d.index :=
  Prod.Lex.toLex_lt_toLex

theorem seq_le (h : c ≤ d) : c.seq ≤ d.seq := by
  rcases h.lt_or_eq with h | rfl
  · rw [lt_iff] at h
    omega
  · exact le_rfl

/-- Whoever is at the cursor and is given `next` has missed nothing. -/
def isImmediatelyBefore (c next : Cursor) : Bool :=
  if c.seq = next.seq then c.index ≠ U32_MAX && c.index + 1 = next.index
  else c.index = U32_MAX && next.index = 0 && c.seq + 1 = next.seq

theorem le_of_isImmediatelyBefore (h : c.isImmediatelyBefore d = true) (hindex : x.index ≤ U32_MAX)
    (hx : x < d) : x ≤ c := by
  by_contra hlt
  rw [not_le, lt_iff] at hlt
  rw [lt_iff] at hx
  rw [isImmediatelyBefore] at h
  split at h <;> simp at h <;> omega

end Cursor

/-- An event under its cursor. -/
structure EventRecord where
  seq : ℕ
  index : ℕ
  eventType : String
  data : String
deriving DecidableEq

/-- The cursor of a record. -/
def EventRecord.cursor (r : EventRecord) : Cursor := ⟨r.seq, r.index⟩

/-- Records in the order of their cursors, each cursor once. -/
abbrev Ascending (l : List EventRecord) : Prop := l.Pairwise fun a b => a.cursor < b.cursor

/-- The records behind a cursor. -/
abbrev after (l : List EventRecord) (c : Cursor) : List EventRecord :=
  l.filter fun r => c < r.cursor

/-- The log that the upstream serves: sequence numbers from 1 on, each with one record or more. -/
structure Log where
  records : List EventRecord
  first : ∀ r ∈ records.head?, r.cursor = ⟨1, 0⟩
  next : records.IsChain fun a b =>
    b.seq = a.seq ∧ b.index = a.index + 1 ∨ b.seq = a.seq + 1 ∧ b.index = 0
  index_le : ∀ r ∈ records, r.index ≤ U32_MAX

theorem Log.ascending (log : Log) : Ascending log.records := by
  have : IsTrans EventRecord fun a b => a.cursor < b.cursor := ⟨fun _ _ _ => lt_trans⟩
  refine isChain_iff_pairwise.mp (log.next.imp fun a b h => ?_)
  rw [Cursor.lt_iff]
  simp only [EventRecord.cursor]
  omega

variable {l : List EventRecord} {r x : EventRecord}

theorem Ascending.le_last (h : Ascending l) (hlast : l.getLast? = some r) (hx : x ∈ l) :
    x.cursor ≤ r.cursor := by
  obtain ⟨l, rfl⟩ := List.getLast?_eq_some_iff.mp hlast
  rcases mem_append.mp hx with hx | hx
  · exact ((pairwise_append.mp h).2.2 x hx r mem_cons_self).le
  · rw [mem_singleton.mp hx]

theorem Ascending.head_le (h : Ascending l) (hhead : l.head? = some r) (hx : x ∈ l) :
    r.cursor ≤ x.cursor := by
  obtain ⟨l, rfl⟩ := List.head?_eq_some_iff.mp hhead
  rcases mem_cons.mp hx with rfl | hx
  · exact le_rfl
  · exact (rel_of_pairwise_cons h hx).le

theorem Log.seq_pos {log : Log} (hr : r ∈ log.records) : 0 < r.seq := by
  cases hhead : log.records.head? with
  | none =>
    rw [List.head?_eq_none_iff.mp hhead] at hr
    cases hr
  | some a =>
    have hle := Cursor.seq_le (log.ascending.head_le hhead hr)
    rw [log.first a hhead] at hle
    exact hle

/-- What an upward closed test keeps of an ascending list is its end. -/
theorem Ascending.filter_split {p : EventRecord → Bool} (h : Ascending l)
    (hp : ∀ a b : EventRecord, a.cursor < b.cursor → p a = true → p b = true) :
    ∃ u, u ++ l.filter p = l ∧ ∀ x ∈ u, p x = false := by
  induction l with
  | nil => exact ⟨[], rfl, by simp⟩
  | cons a l ih =>
    obtain ⟨ha, hl⟩ := pairwise_cons.mp h
    cases hpa : p a with
    | false =>
      obtain ⟨u, hu, hfails⟩ := ih hl
      exact ⟨a :: u, by simp [hpa, hu], by simpa [hpa] using hfails⟩
    | true =>
      refine ⟨[], filter_eq_self.mpr fun b hb => ?_, by simp⟩
      rcases mem_cons.mp hb with rfl | hb
      · exact hpa
      · exact hp a b (ha b hb) hpa

theorem Ascending.after_split (h : Ascending l) (c : Cursor) :
    ∃ u, u ++ after l c = l ∧ ∀ x ∈ u, x.cursor ≤ c := by
  obtain ⟨u, hu, hfails⟩ := h.filter_split (p := fun r => c < r.cursor) fun a b hlt ha => by
    simpa using (of_decide_eq_true ha).trans hlt
  exact ⟨u, hu, fun x hx => by simpa using hfails x hx⟩

/-- A log whose first two numbers have two records each. -/
def twoGroups : Log where
  records := [⟨1, 0, "", ""⟩, ⟨1, 1, "", ""⟩, ⟨2, 0, "", ""⟩, ⟨2, 1, "", ""⟩, ⟨3, 0, "", ""⟩]
  first := by decide
  next := by decide
  index_le := by decide

end Cursors

/-- Where a cursor stands relative to what the ring holds. -/
inductive CursorPosition where
  | atTail
  | inWindow
  | behind (oldestSeq : ℕ)
deriving DecidableEq

/-- The ring no longer holds all that follows the cursor. -/
def CursorPosition.isBehind : CursorPosition → Bool
  | behind _ => true
  | _ => false

/-- The newest records, oldest first. -/
structure EventRing where
  capacity : ℕ
  capacity_pos : 0 < capacity
  buf : List EventRecord
  last : Option Cursor
  lastEvicted : Option Cursor
  watermark : Option ℕ

/-- Drops the oldest records until the rest fits. -/
def evict (capacity : ℕ) : List EventRecord → Option Cursor → List EventRecord × Option Cursor
  | [], evicted => ([], evicted)
  | r :: rest, evicted =>
    if capacity < rest.length + 1 then evict capacity rest (some r.cursor)
    else (r :: rest, evicted)

namespace EventRing

/-- An empty ring, with room for one record at least. -/
def new (capacity : ℕ) : EventRing where
  capacity := max capacity 1
  capacity_pos := by omega
  buf := []
  last := none
  lastEvicted := none
  watermark := none

variable (ring : EventRing)

/-- The cursor of the oldest record held. -/
def oldest : Option Cursor := ring.buf.head?.map EventRecord.cursor

def oldestSeq : Option ℕ := ring.buf.head?.map EventRecord.seq

/-- The cursor of the newest record held. -/
def newest : Option Cursor := ring.buf.getLast?.map EventRecord.cursor

/-- The upstream has lost what was to come next, and goes on at a later number. -/
def noteGap (oldestAvailableSeq : ℕ) : EventRing :=
  { ring with
    buf := []
    watermark := none
    last := none
    lastEvicted := some ⟨oldestAvailableSeq, 0⟩ }

/-- Appends a record and evicts what no longer fits. -/
def insert (record : EventRecord) (watermark : Option ℕ) : EventRing :=
  let kept := evict ring.capacity (ring.buf ++ [record]) ring.lastEvicted
  { ring with
    buf := kept.1
    last := some record.cursor
    lastEvicted := kept.2
    watermark := watermark }

/-- Takes a record that is after the last one taken. -/
def push (record : EventRecord) : EventRing × Bool :=
  match ring.last with
  | some last =>
    if record.cursor ≤ last then (ring, false)
    else (ring.insert record (if last.seq < record.seq then some last.seq else ring.watermark),
      true)
  | none => (ring.insert record ring.watermark, true)

/-- What the ring holds behind a cursor. -/
def recordsAfter (cursor : Cursor) : List EventRecord := after ring.buf cursor

/-- Who is at the cursor has seen all that the ring has dropped. -/
def contiguous (cursor : Cursor) : Bool :=
  match ring.lastEvicted with
  | some evicted => evicted ≤ cursor
  | none => ring.oldest.any fun oldest => oldest ≤ cursor || cursor.isImmediatelyBefore oldest

/-- Whether a client at the cursor can be streamed to from the ring. -/
def position (cursor : Cursor) : CursorPosition :=
  match ring.newest with
  | none => .atTail
  | some newest =>
    if newest ≤ cursor then .atTail
    else if ring.contiguous cursor then .inWindow
    else .behind (ring.oldestSeq.getD 0)

end EventRing

/-- A ring, and what it has taken since it was empty. -/
structure Intake where
  ring : EventRing
  accepted : List EventRecord

namespace Intake

def new (capacity : ℕ) : Intake := ⟨.new capacity, []⟩

/-- Notes a record if the ring takes it. -/
def push (i : Intake) (record : EventRecord) : Intake where
  ring := (i.ring.push record).1
  accepted := if (i.ring.push record).2 then i.accepted ++ [record] else i.accepted

/-- A gap begins what was taken anew. -/
def noteGap (i : Intake) (oldestAvailableSeq : ℕ) : Intake :=
  ⟨i.ring.noteGap oldestAvailableSeq, []⟩

/-- What the ring holds of what it has taken, if its floor was `edge` when it was empty. -/
structure Fed (i : Intake) (edge : Option Cursor) : Prop where
  last : i.ring.last = i.accepted.getLast?.map EventRecord.cursor
  kept : i.ring.buf = [] → i.accepted = []
  window : ∃ gone, i.accepted = gone ++ i.ring.buf ∧
    i.ring.lastEvicted = (gone.getLast?.map EventRecord.cursor).or edge

variable {i : Intake} {edge : Option Cursor}

theorem fed_new (capacity : ℕ) : (new capacity).Fed none := ⟨rfl, fun _ => rfl, [], rfl, rfl⟩

theorem fed_noteGap (i : Intake) (seq : ℕ) : (i.noteGap seq).Fed (some ⟨seq, 0⟩) :=
  ⟨rfl, fun _ => rfl, [], rfl, rfl⟩

theorem evict_spec {capacity : ℕ} (hpos : 0 < capacity)
    (l : List EventRecord) (evicted : Option Cursor) :
    ∃ gone, l = gone ++ (evict capacity l evicted).1 ∧
      (evict capacity l evicted).2 = (gone.getLast?.map EventRecord.cursor).or evicted ∧
      ((evict capacity l evicted).1 = [] → l = []) := by
  induction l generalizing evicted with
  | nil => exact ⟨[], rfl, rfl, fun _ => rfl⟩
  | cons r _ ih =>
    rw [evict]
    split
    next hfull =>
      obtain ⟨gone, hrest, hlast, hkept⟩ := ih (some r.cursor)
      refine ⟨r :: gone, by rw [cons_append, ← hrest], ?_, fun hnil => ?_⟩
      · rw [hlast]
        cases gone with
        | nil => rfl
        | cons => simp [List.getLast?_cons]
      · rw [hkept hnil] at hfull
        exact absurd hfull (by simp; omega)
    · exact ⟨[], rfl, rfl, fun h => h⟩

theorem Fed.insert (h : i.Fed edge) (record : EventRecord) (watermark : Option ℕ) :
    Fed ⟨i.ring.insert record watermark, i.accepted ++ [record]⟩ edge := by
  obtain ⟨gone, haccepted, hevicted⟩ := h.window
  obtain ⟨more, hbuf, hlast, hkept⟩ :=
    evict_spec i.ring.capacity_pos (i.ring.buf ++ [record]) i.ring.lastEvicted
  refine ⟨by simp [EventRing.insert], fun hnil => absurd (hkept hnil) (by simp),
    gone ++ more, ?_, ?_⟩
  · rw [haccepted, append_assoc, hbuf, append_assoc]
    rfl
  · rw [List.getLast?_append, Option.map_or, Option.or_assoc, ← hevicted]
    exact hlast

/-- A record is taken if it is after the last one taken. -/
theorem Fed.push (h : i.Fed edge) (r : EventRecord) :
    (i.push r).Fed edge ∧
    ((∀ last ∈ i.accepted.getLast?, last.cursor < r.cursor) ∧
        (i.push r).accepted = i.accepted ++ [r] ∨
      (∃ last ∈ i.accepted.getLast?, r.cursor ≤ last.cursor) ∧ i.push r = i) := by
  rw [Intake.push, EventRing.push, h.last]
  cases i.accepted.getLast? with
  | none => exact ⟨h.insert r _, .inl ⟨by simp, rfl⟩⟩
  | some last =>
    simp only [Option.map_some]
    split
    next hle => exact ⟨h, .inr ⟨⟨last, rfl, hle⟩, rfl⟩⟩
    next hlt => exact ⟨h.insert r _, .inl ⟨by simpa using hlt, rfl⟩⟩

/-- Whoever pushes the log from no later than where the ring is keeps the ring on it. -/
theorem Fed.follow {log : Log} {post rest : List EventRecord} {r : EventRecord} (h : i.Fed edge)
    (hlog : i.accepted ++ post <:+ log.records) (hne : i.accepted ≠ [])
    (hrest : r :: rest <:+ log.records) (hpost : post <:+ r :: rest) :
    ∃ post', post' <:+ post ∧ post' <:+ rest ∧ (i.push r).accepted ++ post' <:+ log.records := by
  obtain ⟨last, hlast⟩ := Option.ne_none_iff_exists'.mp (mt List.getLast?_eq_none_iff.mp hne)
  rcases suffix_cons_iff.mp hpost with rfl | ⟨v, rfl⟩
  · -- the next record of the log
    have hafter : last.cursor < r.cursor :=
      (pairwise_append.mp (log.ascending.sublist hlog.sublist)).2.2 last
        (mem_of_getLast? hlast) r mem_cons_self
    rcases (h.push r).2 with ⟨-, htaken⟩ | ⟨⟨last', hlast', hle⟩, -⟩
    · exact ⟨rest, suffix_cons r rest, suffix_rfl, by simpa [htaken] using hlog⟩
    · cases hlast.symm.trans hlast'
      exact absurd hle (not_le.mpr hafter)
  · -- a record that the ring has passed
    have hpassed : r.cursor ≤ last.cursor := by
      obtain ⟨u, hu⟩ := hlog
      obtain ⟨w, hw⟩ := hrest
      have hsplit : u ++ i.accepted = w ++ r :: v :=
        (append_left_inj post).mp (by simpa using hu.trans hw.symm)
      refine Ascending.le_last (l := u ++ i.accepted) ?_ ?_ (by simp [hsplit])
      · exact log.ascending.sublist (by rw [← hu, ← append_assoc]; simp)
      · rw [List.getLast?_append, hlast, Option.some_or]
    rcases (h.push r).2 with ⟨hafter, -⟩ | ⟨-, hsame⟩
    · exact absurd hpassed (not_le.mpr (hafter last hlast))
    · exact ⟨post, suffix_rfl, suffix_append v post, by rwa [hsame]⟩

end Intake

end Knomosis.Gateway
