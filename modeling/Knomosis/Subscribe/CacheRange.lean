import Knomosis.Lib.Word
import Knomosis.Subscribe.Steps

/-!
# What the cache answers

The cache is filled batch by batch and asked between two batches.  What it answers is
compared with everything that was ever pushed.
-/

namespace Knomosis.Subscribe

open Lib Smt Server List

variable {log : ℕ → List Bytes} {cache cache' : EventCache} {evicted : List CachedEvent}
  {front back : CachedEvent} {n q v : ℕ}

/-- The cache after `n` batches. -/
def filled (log : ℕ → List Bytes) (capacity : ℕ) : ℕ → Except PushError EventCache
  | 0 => .ok (.new capacity)
  | n + 1 => do (← filled log capacity n).pushAll (batch log (n + 1))

namespace EventCache

/-- What an answer to the query `q` after `n` batches says. -/
def Answers (log : ℕ → List Bytes) (cache : EventCache) (n q : ℕ) : RangeOutcome → Prop
  | .inWindow events =>
    if q = FROM_OLDEST then
      ∃ m, 0 < m ∧ events = span (batch log) m (n + 1) ∧ events <:+ cache.buffer ∧
        ∀ k, 0 < k → span (batch log) k (n + 1) <:+ cache.buffer → m ≤ k
    else events = (span (batch log) 1 (n + 1)).filter fun e => q < e.seq
  | .atLiveTail => q = 0 ∨ ∀ e ∈ span (batch log) 1 (n + 1), e.seq ≤ q
  | .outOfWindow v =>
    (∃ evicted, evicted ++ cache.buffer = span (batch log) 1 (n + 1) ∧ ∃ e ∈ evicted, q < e.seq) ∧
    (∀ t, cache.range v ≠ .outOfWindow t) ∧
    ∃ front ∈ cache.buffer.head?,
      v = if q + 1 < front.seq then front.seq else min (front.seq + 1) U64_MAX

theorem Cut.of_atLiveTail (h : cache.Cut evicted front back)
    (hrange : cache.range q = .atLiveTail) : q = 0 ∨ back.seq ≤ q := by
  rw [range, h.head, h.last] at hrange
  simp only at hrange
  split_ifs at hrange
  · exact .inl ‹_›
  · exact .inr ‹_›

/-- The answer to the request for everything is the longest end of whole batches that is kept. -/
theorem Cut.fromOldest (h : cache.Cut evicted front back)
    (hsplit : evicted ++ cache.buffer = span (batch log) 1 (n + 1)) (hne : ∀ seq, log seq ≠ []) :
    cache.Answers log n FROM_OLDEST (cache.range FROM_OLDEST) := by
  have hkey : ∀ k, ∀ e ∈ batch log k, e.seq = k := fun k e he => seq_of_mem_batch he
  have hrange : cache.range FROM_OLDEST = .inWindow (cache.above cache.floor) := by
    rw [range, h.floor_eq, h.head, h.last]
    exact if_pos rfl
  obtain ⟨k, hk, hkn, hfront⟩ := mem_span.mp
    (hsplit ▸ mem_append_right evicted (mem_of_mem_head? h.head))
  obtain rfl := hkey k front hfront
  have hfloor : cache.floor ≤ front.seq := by
    rw [h.floor_eq]
    split_ifs <;> omega
  have hevents : cache.above cache.floor = span (batch log) (cache.floor + 1) (n + 1) := by
    rw [← filter_span hkey (Nat.le_add_left 1 _), ← hsplit, filter_append,
      filter_eq_nil_iff.mpr (fun e he => by simpa using h.gone e he), nil_append, above]
  rw [hrange, Answers, if_pos rfl]
  refine ⟨_, Nat.succ_pos _, hevents, ?_, ?_⟩
  · have hkept : cache.buffer <:+ span (batch log) 1 (n + 1) := ⟨evicted, hsplit⟩
    refine suffix_of_suffix_length_le ?_ hkept (length_filter_le _ _)
    rw [hevents]
    exact ⟨_, (span_append (by omega) (by omega)).symm⟩
  · intro k hk hsuffix
    by_contra hlt
    obtain ⟨payload, hpayload⟩ := exists_mem_of_ne_nil _ (hne k)
    have hkept : front.seq ≤ k := (h.kept _ (hsuffix.subset (mem_span.mpr
      ⟨k, le_rfl, by omega, mem_map.mpr ⟨payload, hpayload, rfl⟩⟩))).1
    obtain rfl : k = front.seq := by omega
    -- a part of the front batch is gone, so the whole of it is longer than what is kept
    have hpart : cache.hasPartialFront = true := by
      by_contra hwhole
      rw [h.floor_eq, if_neg hwhole] at hlt
      omega
    obtain ⟨e, he, hsame⟩ := h.part hpart
    have hmore : (evicted.filter fun e => front.seq - 1 < e.seq) ≠ [] :=
      ne_nil_of_mem (mem_filter.mpr ⟨he, by simp; omega⟩)
    have hall : (cache.buffer.filter fun e => front.seq - 1 < e.seq) = cache.buffer := by
      refine filter_eq_self.mpr fun e he => ?_
      have := h.kept e he
      simp
      omega
    have hwhole := filter_span (b := n + 1) hkey (show 1 ≤ front.seq - 1 + 1 by omega)
    rw [← hsplit, filter_append, Nat.sub_add_cancel hk, hall] at hwhole
    have hshort := hsuffix.length_le
    rw [← hwhole, length_append] at hshort
    exact hmore (eq_nil_of_length_eq_zero (by omega))

theorem push_buffer_ne_nil {event : CachedEvent} (h : cache.push event = .ok cache') :
    cache'.buffer ≠ [] := by
  unfold push at h
  split_ifs at h
  cases h
  simp

theorem pushAll_buffer_ne_nil {events : List CachedEvent} (h : cache.pushAll events = .ok cache')
    (hne : events ≠ [] ∨ cache.buffer ≠ []) : cache'.buffer ≠ [] := by
  induction events generalizing cache with
  | nil =>
    cases h
    simpa using hne
  | cons =>
    rename_i ih
    obtain ⟨_, hpush, hrest⟩ := bind_eq_ok.mp h
    exact ih hrest (.inr (push_buffer_ne_nil hpush))

/-- A query that is sent away asked for an event that is gone, and can go on where it is told. -/
theorem Cut.outOfWindow (h : cache.Cut evicted front back)
    (hsplit : evicted ++ cache.buffer = span (batch log) 1 (n + 1)) (hne : ∀ seq, log seq ≠ [])
    (hn : n ≤ U64_MAX) (hq : q ≤ U64_MAX) (hrange : cache.range q = .outOfWindow v) :
    cache.Answers log n q (.outOfWindow v) := by
  have hkey : ∀ k, ∀ e ∈ batch log k, e.seq = k := fun k e he => seq_of_mem_batch he
  obtain ⟨k, -, hk, hfront⟩ := mem_span.mp
    (hsplit ▸ mem_append_right evicted (mem_of_mem_head? h.head))
  obtain rfl := hkey k front hfront
  have hfloor := h.floor_eq
  obtain ⟨-, -, hbelow, hv⟩ := (h.outOfWindow_iff hq).mp hrange
  refine ⟨⟨evicted, hsplit, ?_⟩, ?_, front, h.head, hv⟩
  · by_cases hnext : q + 1 < front.seq
    · -- the batch after the query is gone
      obtain ⟨payload, hpayload⟩ := exists_mem_of_ne_nil _ (hne (q + 1))
      have hmem : (⟨q + 1, payload⟩ : CachedEvent) ∈ evicted ++ cache.buffer :=
        hsplit ▸ mem_span.mpr
          ⟨q + 1, by omega, by omega, mem_map.mpr ⟨payload, hpayload, rfl⟩⟩
      rcases mem_append.mp hmem with hgone | hkept
      · exact ⟨_, hgone, Nat.lt_succ_self q⟩
      · exact absurd (h.kept _ hkept).1 (Nat.not_le.mpr hnext)
    · -- a part of the front batch is gone
      have hpart : cache.hasPartialFront = true := by
        by_contra hwhole
        rw [if_neg hwhole] at hfloor
        omega
      obtain ⟨e, he, hsame⟩ := h.part hpart
      rw [if_pos hpart] at hfloor
      exact ⟨e, he, by omega⟩
  · intro t ht
    have hle : cache.floor ≤ v := by split_ifs at hfloor hv <;> omega
    have hmax : v ≤ U64_MAX := by split_ifs at hv <;> omega
    exact absurd ((h.outOfWindow_iff hmax).mp ht).2.2.1 (Nat.not_lt.mpr hle)

end EventCache

theorem exists_filled (hne : ∀ seq, log seq ≠ []) (capacity n : ℕ) :
    ∃ cache, filled log capacity n = .ok cache ∧ cache.Holds (span (batch log) 1 (n + 1)) ∧
      cache.lastPushedSeq ≤ n ∧ (cache.buffer = [] → n = 0) := by
  induction n with
  | zero => exact ⟨_, rfl, EventCache.holds_new capacity, le_rfl, fun _ => rfl⟩
  | succ n ih =>
    obtain ⟨cache, hfilled, hholds, hpushed, -⟩ := ih
    obtain ⟨cache', hpush, hholds', hpushed'⟩ := hholds.pushAll (Nat.succ_ne_zero n)
      (hpushed.trans (Nat.le_succ n)) (fun e he => seq_of_mem_batch he)
    have hbatch : batch log (n + 1) ≠ [] := by simpa [batch] using hne (n + 1)
    refine ⟨cache', ?_, span_snoc (f := batch log) (Nat.le_add_left 1 n) ▸ hholds', hpushed',
      fun hempty => absurd hempty (EventCache.pushAll_buffer_ne_nil hpush (.inl hbatch))⟩
    rw [filled, hfilled]
    exact hpush

/-- Every answer is right. -/
theorem cache_range_answers
    (log : ℕ → List Bytes)
    (capacity n q : ℕ)
    (hne : ∀ seq, log seq ≠ [])
    (hn : n ≤ U64_MAX)
    (hq : q ≤ U64_MAX) :
    ∃ cache,
      filled log capacity n = .ok cache ∧
      cache.Answers log n q (cache.range q) := by
  obtain ⟨cache, hfilled, hholds, -, hempty⟩ := exists_filled hne capacity n
  refine ⟨cache, hfilled, ?_⟩
  have hkey : ∀ k, ∀ e ∈ batch log k, e.seq = k := fun k e he => seq_of_mem_batch he
  by_cases hbuffer : cache.buffer = []
  · obtain rfl := hempty hbuffer
    simp [EventCache.range, EventCache.Answers, hbuffer]
  obtain ⟨evicted, front, back, hsplit, hcut⟩ := hholds.cut (pairwise_span hkey) hbuffer
  cases hrange : cache.range q with
  | outOfWindow v => exact hcut.outOfWindow hsplit hne hn hq hrange
  | inWindow events =>
    by_cases hall : q = FROM_OLDEST
    · subst hall
      exact hrange ▸ hcut.fromOldest hsplit hne
    · rw [EventCache.Answers, if_neg hall]
      exact (hholds.range_inWindow (pairwise_span hkey) (lt_of_le_of_ne hq hall) hrange).1
  | atLiveTail =>
    refine (hcut.of_atLiveTail hrange).imp_right ?_
    intro hlive e he
    have hfloor := hcut.floor_eq
    have hfront := (hcut.kept front (mem_of_mem_head? hcut.head)).2
    rcases mem_append.mp (hsplit ▸ he) with hold | hkept
    · have := hcut.gone e hold
      split_ifs at hfloor <;> omega
    · exact (hcut.kept e hkept).2.trans hlive

/-- One event for each number. -/
def oneEach : ℕ → List Bytes := fun _ => [[]]

/-- A client that has the first of four events is sent away when two are kept. -/
theorem cache_range_sent_away :
    ∃ cache,
      filled oneEach 2 4 = .ok cache ∧
      cache.range 1 = .outOfWindow 3 ∧
      cache.Answers oneEach 4 1 (cache.range 1) := by
  obtain ⟨cache, hfilled, hanswers⟩ := cache_range_answers oneEach 2 4 1 (by simp [oneEach])
    (by decide) (by decide)
  obtain rfl : _ = cache := Except.ok.inj hfilled
  exact ⟨_, rfl, by decide, hanswers⟩

/-- That client is told to go on after the third event, although it could go on after the
second. -/
theorem retry_point_too_late :
    ∃ cache,
      filled oneEach 2 4 = .ok cache ∧
      cache.range 1 = .outOfWindow 3 ∧
      ∀ t, cache.range 2 ≠ .outOfWindow t := by
  refine ⟨_, rfl, by decide, ?_⟩
  intro t ht
  cases ht

end Knomosis.Subscribe
