import Knomosis.Lib.Span
import Knomosis.Smt.MultiProof

/-!
# The cache of recent events

The server keeps the last events it extracted, so that a client who comes back can
be told what it missed.  Events of one frame of the log have one number.  The cache
drops its oldest event when it is full, and with it possibly a part of a batch; a
client is never told the rest of such a batch.
-/

namespace Knomosis.Subscribe

open Lib Smt List

def U64_MAX : ℕ := 2 ^ 64 - 1

def HARD_MAX_KEEP_HISTORY : ℕ := 1000000

/-- The request for everything that is kept. -/
def FROM_OLDEST : ℕ := U64_MAX

def saturatingAdd (a b : ℕ) : ℕ := min (a + b) U64_MAX

structure CachedEvent where
  seq : ℕ
  payload : Bytes
deriving DecidableEq

inductive RangeOutcome where
  | inWindow (events : List CachedEvent)
  | outOfWindow (oldestAvailableSeq : ℕ)
  | atLiveTail
deriving DecidableEq

structure EventCache where
  buffer : List CachedEvent
  capacity : ℕ
  lastPushedSeq : ℕ
  lastEvictedSeq : Option ℕ
deriving DecidableEq

inductive PushError where
  | outOfOrder (tried previous : ℕ)
deriving DecidableEq

namespace EventCache

def new (capacity : ℕ) : EventCache where
  buffer := []
  capacity := min capacity HARD_MAX_KEEP_HISTORY
  lastPushedSeq := 0
  lastEvictedSeq := none

/-- Drop the oldest event if the cache is full. -/
def evict (cache : EventCache) : EventCache :=
  if cache.buffer.length = cache.capacity then
    match cache.buffer with
    | [] => cache
    | evicted :: rest => { cache with buffer := rest, lastEvictedSeq := some evicted.seq }
  else cache

def push (cache : EventCache) (event : CachedEvent) : Except PushError EventCache :=
  if event.seq = 0 ∨ event.seq < cache.lastPushedSeq then
    .error (.outOfOrder event.seq cache.lastPushedSeq)
  else
    .ok { cache.evict with
      lastPushedSeq := event.seq, buffer := cache.evict.buffer ++ [event] }

/-- The events of a batch, one after the other. -/
def pushAll (cache : EventCache) : List CachedEvent → Except PushError EventCache
  | [] => .ok cache
  | event :: events => do
    let cache ← cache.push event
    cache.pushAll events

def hasPartialFront (cache : EventCache) : Bool :=
  match cache.lastEvictedSeq, cache.buffer.head? with
  | some evicted, some front => evicted = front.seq
  | _, _ => false

/-- What is kept above a number. -/
def above (cache : EventCache) (seq : ℕ) : List CachedEvent :=
  cache.buffer.filter fun e => seq < e.seq

def range (cache : EventCache) (fromSeq : ℕ) : RangeOutcome :=
  match cache.buffer.head?, cache.buffer.getLast? with
  | some front, some back =>
    if fromSeq = FROM_OLDEST then
      .inWindow (cache.above (if cache.hasPartialFront then front.seq else front.seq - 1))
    else if fromSeq = 0 then .atLiveTail
    else if back.seq ≤ fromSeq then .atLiveTail
    else if saturatingAdd fromSeq 1 < front.seq then .outOfWindow front.seq
    else if cache.hasPartialFront ∧ fromSeq < front.seq then
      .outOfWindow (saturatingAdd front.seq 1)
    else .inWindow (cache.above fromSeq)
  | _, _ => .atLiveTail

end EventCache

section Contents

variable {cache : EventCache} {hist : List CachedEvent}

/-- The cache was told of these events, and still holds the last of them. -/
def EventCache.Holds (cache : EventCache) (hist : List CachedEvent) : Prop :=
  ∃ evicted, evicted ++ cache.buffer = hist ∧
    cache.lastEvictedSeq = evicted.getLast?.map CachedEvent.seq ∧
      ∀ e ∈ hist, e.seq ≤ cache.lastPushedSeq

theorem EventCache.holds_new (capacity : ℕ) : (EventCache.new capacity).Holds [] :=
  ⟨[], rfl, rfl, nofun⟩

theorem EventCache.Holds.evict (h : cache.Holds hist) : cache.evict.Holds hist := by
  obtain ⟨evicted, hsplit, hlast, hpushed⟩ := h
  unfold EventCache.evict
  split
  · split
    · exact ⟨evicted, hsplit, hlast, hpushed⟩
    next first rest hbuffer =>
      rw [hbuffer] at hsplit
      exact ⟨evicted ++ [first], by simpa using hsplit, by simp, hpushed⟩
  · exact ⟨evicted, hsplit, hlast, hpushed⟩

theorem EventCache.Holds.push {event : CachedEvent} (h : cache.Holds hist) (hpos : event.seq ≠ 0)
    (hnext : cache.lastPushedSeq ≤ event.seq) :
    ∃ cache', cache.push event = .ok cache' ∧ cache'.Holds (hist ++ [event]) ∧
      cache'.lastPushedSeq = event.seq := by
  have horder : ¬ (event.seq = 0 ∨ event.seq < cache.lastPushedSeq) := by omega
  refine ⟨_, if_neg horder, ?_, rfl⟩
  obtain ⟨evicted, hsplit, hlast, -⟩ := h.evict
  refine ⟨evicted, by simp [← hsplit], hlast, ?_⟩
  obtain ⟨_, _, _, hpushed⟩ := h
  intro e he
  rcases mem_append.mp he with hold | hnew
  · exact (hpushed e hold).trans hnext
  · rw [mem_singleton.mp hnew]

/-- A batch whose events have one number, not below what was pushed before. -/
theorem EventCache.Holds.pushAll {events : List CachedEvent} {seq : ℕ} (h : cache.Holds hist)
    (hpos : seq ≠ 0) (hnext : cache.lastPushedSeq ≤ seq) (hseq : ∀ e ∈ events, e.seq = seq) :
    ∃ cache', cache.pushAll events = .ok cache' ∧ cache'.Holds (hist ++ events) ∧
      cache'.lastPushedSeq ≤ seq := by
  induction events generalizing cache hist with
  | nil => exact ⟨cache, rfl, by rwa [append_nil], hnext⟩
  | cons event _ ih =>
    have hfirst := hseq event mem_cons_self
    obtain ⟨cache₁, hpush, hholds, hlast⟩ := h.push (hfirst ▸ hpos) (hfirst ▸ hnext)
    obtain ⟨cache', hpushAll, hholds', hlast'⟩ :=
      ih hholds (hlast.trans hfirst).le (fun e he => hseq e (mem_cons_of_mem _ he))
    refine ⟨cache', ?_, by simpa using hholds', hlast'⟩
    rw [EventCache.pushAll, hpush]
    exact hpushAll

end Contents

namespace EventCache

variable {cache : EventCache} {hist evicted : List CachedEvent} {front back : CachedEvent} {q v : ℕ}

/-- The number above which every batch is kept whole. -/
def floor (cache : EventCache) : ℕ :=
  match cache.buffer.head? with
  | none => 0
  | some front => if cache.hasPartialFront then front.seq else front.seq - 1

/-- What is kept, and what is not. -/
structure Cut (cache : EventCache) (evicted : List CachedEvent) (front back : CachedEvent) :
    Prop where
  head : cache.buffer.head? = some front
  last : cache.buffer.getLast? = some back
  kept : ∀ e ∈ cache.buffer, front.seq ≤ e.seq ∧ e.seq ≤ back.seq
  gone : ∀ e ∈ evicted, e.seq ≤ cache.floor
  part : cache.hasPartialFront = true → ∃ e ∈ evicted, e.seq = front.seq

theorem Cut.floor_eq (h : cache.Cut evicted front back) :
    cache.floor = if cache.hasPartialFront then front.seq else front.seq - 1 := by
  rw [floor, h.head]

theorem Holds.cut (h : cache.Holds hist) (hsorted : hist.Pairwise fun d e => d.seq ≤ e.seq)
    (hne : cache.buffer ≠ []) :
    ∃ evicted front back, evicted ++ cache.buffer = hist ∧ cache.Cut evicted front back := by
  obtain ⟨evicted, rfl, hevicted, -⟩ := h
  obtain ⟨hold, hnew, hboth⟩ := pairwise_append.mp hsorted
  have hhead := List.head?_eq_some_head hne
  have hgone : ∀ e ∈ evicted, e.seq ≤ cache.floor := by
    rcases evicted.eq_nil_or_concat' with rfl | ⟨older, last, rfl⟩
    · exact fun e he => absurd he not_mem_nil
    have hfront := hboth last (by simp) _ (head_mem hne)
    have hlast : last.seq ≤ cache.floor := by
      simp only [floor, hasPartialFront, hevicted, hhead, List.getLast?_concat, Option.map_some,
        decide_eq_true_eq]
      split_ifs <;> omega
    intro e he
    rcases mem_append.mp he with holder | hmem
    · exact ((pairwise_append.mp hold).2.2 e holder last (by simp)).trans hlast
    · rwa [mem_singleton.mp hmem]
  refine ⟨evicted, _, _, rfl, hhead, List.getLast?_eq_some_getLast hne,
    fun e he => ⟨hnew.rel_head he, hnew.rel_getLast he⟩, hgone, ?_⟩
  intro hpart
  cases hlast : evicted.getLast? with
  | none => simp [hasPartialFront, hevicted, hlast] at hpart
  | some last =>
    exact ⟨last, mem_of_mem_getLast? hlast,
      by simpa [hasPartialFront, hevicted, hlast, hhead] using hpart⟩

theorem Cut.outOfWindow_iff (h : cache.Cut evicted front back) (hq : q ≤ U64_MAX) :
    cache.range q = .outOfWindow v ↔ q ≠ 0 ∧ q ≠ FROM_OLDEST ∧ q < cache.floor ∧
      v = if q + 1 < front.seq then front.seq else min (front.seq + 1) U64_MAX := by
  have hle := (h.kept front (mem_of_mem_head? h.head)).2
  rw [range, h.floor_eq, h.head, h.last]
  simp only [saturatingAdd, FROM_OLDEST, U64_MAX] at *
  cases cache.hasPartialFront with
  | false =>
    simp only [Bool.false_eq_true, false_and, if_false]
    split_ifs <;> simp <;> omega
  | true =>
    simp only [true_and, if_true]
    split_ifs <;> simp <;> omega

/-- What a client who comes back is told: all that came after what it has. -/
theorem Holds.range_inWindow {events : List CachedEvent} (h : cache.Holds hist)
    (hsorted : hist.Pairwise fun d e => d.seq ≤ e.seq) (hresume : q < FROM_OLDEST)
    (hrange : cache.range q = .inWindow events) :
    events = hist.filter (fun e => q < e.seq) ∧ events ≠ [] := by
  have hne : cache.buffer ≠ [] := by
    intro hempty
    simp [range, hempty] at hrange
  obtain ⟨evicted, front, back, rfl, hcut⟩ := h.cut hsorted hne
  have hin : ¬ ∃ v, cache.range q = .outOfWindow v := by simp [hrange]
  simp only [hcut.outOfWindow_iff hresume.le, exists_and_left, exists_eq, and_true] at hin
  rw [range, hcut.head, hcut.last] at hrange
  simp only [hresume.ne, if_false] at hrange
  split_ifs at hrange with hzero hbehind
  cases hrange
  -- what was evicted is not above the floor
  have hnone : evicted.filter (fun e => q < e.seq) = [] := by
    rw [filter_eq_nil_iff]
    intro e he
    have := hcut.gone e he
    have := hresume.ne
    simp only [decide_eq_true_eq]
    omega
  refine ⟨by rw [filter_append, hnone, nil_append, above], ?_⟩
  refine ne_nil_of_mem (a := back) (mem_filter.mpr ?_)
  exact ⟨mem_of_mem_getLast? hcut.last, by simpa using hbehind⟩

end EventCache

end Knomosis.Subscribe
