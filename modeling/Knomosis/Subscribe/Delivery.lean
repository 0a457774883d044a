import Knomosis.Subscribe.Resume

/-!
# Delivery without gaps

What was written to a subscriber is an unbroken piece of the log: first what the
cache held above the number the client gave, then the batches that came through the
channel, less those that were already written.  The channel itself always holds an
unbroken run of batches up to the one that is offered next, as long as a batch that
finds the channel full also sends the subscriber away.  A batch that is only counted
as dropped is followed by the next one, and there is a gap.
-/

namespace Knomosis.Subscribe

open Lib Smt List Subscriber

section Queues

/-- The batch in a delivery. -/
def DeliveryEvent.live? : DeliveryEvent → Option (List CachedEvent)
  | live batch => some batch
  | shutdown => none

/-- The batches of a queue. -/
def lives (deliveries : List DeliveryEvent) : List (List CachedEvent) :=
  deliveries.filterMap DeliveryEvent.live?

@[simp] theorem lives_nil : lives [] = [] := rfl

theorem lives_shutdown : lives [.shutdown] = [] := rfl

@[simp] theorem lives_append (first second : List DeliveryEvent) :
    lives (first ++ second) = lives first ++ lives second :=
  filterMap_append

/-- The channel holds the batches from `q` on, and all of them unless the subscriber was sent
away. -/
def Subscriber.Queued (f : ℕ → List CachedEvent) (next : ℕ) (sub : Subscriber) (q : ℕ) : Prop :=
  ∃ e, q ≤ e ∧ e ≤ next ∧ lives sub.channel = batches f q e ∧ (sub.disconnected = false → e = next)

/-- Nothing was written, and nothing kept. -/
def Subscriber.Untouched (sub : Subscriber) : Prop :=
  sub.eventsWritten = [] ∧ sub.pending = [] ∧ sub.lastDeliveredSeq = 0

/-- The log up to `m` was written from the cache, and what came later was kept. -/
def Subscriber.Covered (f : ℕ → List CachedEvent) (next : ℕ) (sub : Subscriber) (q : ℕ) : Prop :=
  ∃ a m, 0 < a ∧ a < m ∧ m ≤ next ∧ sub.eventsWritten = span f a m ∧
    sub.lastDeliveredSeq + 1 = m ∧ lives sub.pending = batches f m (max m q)

/-- With `events` a whole number of batches are written, and what was kept comes next. -/
def Subscriber.Aligned (f : ℕ → List CachedEvent) (sub : Subscriber) (q : ℕ)
    (events : List CachedEvent) : Prop :=
  ∃ a k, a ≤ k ∧ k ≤ q ∧ sub.eventsWritten ++ events = span f a k ∧
    lives sub.pending = batches f k q

/-- How what was written, what was kept and the next batch of the channel fit together. -/
def Subscriber.Stage (f : ℕ → List CachedEvent) (next : ℕ) (sub : Subscriber) (q : ℕ) : Phase → Prop
  | .range => sub.Untouched
  | .backfill events =>
    sub.pending = [] ∧ ∃ a m, 0 < a ∧ a < m ∧ m ≤ next ∧ q ≤ m ∧
      sub.eventsWritten ++ events = span f a m ∧ (events = [] → sub.lastDeliveredSeq + 1 = m)
  | .drain => sub.Untouched ∨ sub.Covered f next q
  | .checkShutdown | .checkDisconnected | .receive => sub.Aligned f q []
  | .write _ events => sub.Aligned f q events
  | .unregister writeFailed | .gone writeFailed =>
    ∃ a b, sub.eventsWritten <+: span f a b ∧ (writeFailed = false → sub.eventsWritten = span f a b)

/-- Nothing is missing, as far as the subscriber has been offered batches. -/
def Subscriber.Streams (f : ℕ → List CachedEvent) (next : ℕ) (sub : Subscriber) : Prop :=
  ∃ q, sub.Stage f next q sub.phase ∧ (sub.isGone = false → sub.Queued f next q)

variable {cfg : Config} {f : ℕ → List CachedEvent} {next next' q : ℕ} {sub sub' : Subscriber}

theorem Subscriber.Stage.mono {phase : Phase} (h : sub.Stage f next q phase) (hle : next ≤ next') :
    sub.Stage f next' q phase := by
  cases phase with
  | backfill =>
    obtain ⟨hpending, a, m, hpos, ham, hm, hrest⟩ := h
    exact ⟨hpending, a, m, hpos, ham, hm.trans hle, hrest⟩
  | drain =>
    rcases h with h | ⟨a, m, hpos, ham, hm, hrest⟩
    · exact .inl h
    · exact .inr ⟨a, m, hpos, ham, hm.trans hle, hrest⟩
  | _ => exact h

/-- There is room for a batch, or nobody waits for it, or the subscriber is sent away without it. -/
def Subscriber.TakesOrLeaves (cfg : Config) (sub : Subscriber) : Prop :=
  sub.disconnected ∨ sub.isGone ∨ sub.channel.length < cfg.queueDepth ∨ cfg.maxLag ≤ sub.lag

theorem Subscriber.Queued.mono (h : sub.Queued f next q) (hgone : sub.disconnected = true)
    (hle : next ≤ next') : sub.Queued f next' q := by
  obtain ⟨e, hq, he, hlives, -⟩ := h
  exact ⟨e, hq, he.trans hle, hlives, fun hhere => by simp [hgone] at hhere⟩

theorem Subscriber.Streams.tryEnqueue (h : sub.Streams f next) (htakes : sub.TakesOrLeaves cfg) :
    (sub.tryEnqueue cfg (f next)).Streams f (next + 1) := by
  obtain ⟨q, hstage, hqueued⟩ := h
  have hlater := hstage.mono (Nat.le_succ next)
  unfold Subscriber.tryEnqueue
  split
  next hdisc => exact ⟨q, hlater, fun hhere => (hqueued hhere).mono hdisc (Nat.le_succ next)⟩
  next hconn =>
  split
  next hgone =>
    exact ⟨q, hlater, fun hhere => by
      have hhere : sub.isGone = false := hhere
      simp [hgone] at hhere⟩
  next hpresent =>
  obtain ⟨e, hq, he, hlives, htip⟩ := hqueued (by simpa using hpresent)
  obtain rfl := htip (by simpa using hconn)
  split
  · refine ⟨q, hlater, fun _ => ⟨e + 1, by omega, le_rfl, ?_, fun _ => rfl⟩⟩
    rw [lives_append, hlives, batches_snoc hq]
    rfl
  next hfull =>
    have hlag : cfg.maxLag < sub.lag + 1 := by
      rcases htakes with h | h | h | h
      · exact absurd h hconn
      · exact absurd h hpresent
      · exact absurd h hfull
      · exact Nat.lt_succ_of_le h
    simp only [hlag, if_true]
    exact ⟨q, hlater, fun _ => ⟨e, hq, Nat.le_succ e, hlives, fun h => by cases h⟩⟩

theorem Subscriber.Streams.requestShutdown (h : sub.Streams f next) :
    (sub.requestShutdown cfg).Streams f next := by
  obtain ⟨q, hstage, hqueued⟩ := h
  unfold Subscriber.requestShutdown
  split
  · exact ⟨q, hstage, hqueued⟩
  dsimp only
  split
  next hgone =>
    exact ⟨q, hstage, fun hhere => by
      have hhere : sub.isGone = false := hhere
      have hgone : sub.isGone = true := hgone
      simp [hgone] at hhere⟩
  split
  · refine ⟨q, hstage, fun hhere => ?_⟩
    obtain ⟨e, hq, he, hlives, htip⟩ := hqueued hhere
    exact ⟨e, hq, he, by simpa [lives_shutdown] using hlives, htip⟩
  · exact ⟨q, hstage, hqueued⟩

theorem Subscriber.streams_new (resumeFrom : ℕ) : (new resumeFrom).Streams f next :=
  ⟨next, ⟨rfl, rfl, rfl⟩, fun _ => ⟨next, le_rfl, le_rfl, batches_self.symm, fun _ => rfl⟩⟩

end Queues

section Threads

variable {cfg : Config} {f : ℕ → List CachedEvent} {next q : ℕ} {sub sub' : Subscriber}
variable {cache : EventCache} {socket : Socket}

namespace Subscriber

theorem Queued.markDisconnected (h : sub.Queued f next q) :
    sub.markDisconnected.Queued f next q := by
  obtain ⟨e, hq, he, hlives, -⟩ := h
  exact ⟨e, hq, he, hlives, fun hhere => by cases hhere⟩

variable {a b : ℕ} {e : CachedEvent} {events : List CachedEvent}

theorem Queued.finish {frame : OutboundFrame} (h : sub.Queued f next q)
    (hwritten : sub.eventsWritten = span f a b) (hframe : frame.event? = none) :
    (sub.finish socket frame).Streams f next := by
  have hput : (sub.put frame).eventsWritten = span f a b := by simp [hframe, hwritten]
  unfold Subscriber.finish
  split
  · exact ⟨q, ⟨a, b, hput ▸ prefix_refl _, fun _ => hput⟩, fun _ => h⟩
  · exact ⟨q, ⟨a, b, hwritten ▸ prefix_refl _, fun _ => hwritten⟩, fun _ => h⟩

theorem Queued.writeFailed {rest : List CachedEvent} (h : sub.Queued f next q)
    (hwritten : sub.eventsWritten ++ rest = span f a b) :
    (sub.markDisconnected.goTo (.unregister true)).Streams f next :=
  ⟨q, ⟨a, b, ⟨rest, hwritten⟩, fun hok => by cases hok⟩, fun _ => h.markDisconnected⟩

theorem Streams.here {phase : Phase} (h : sub.Streams f next) (hphase : sub.phase = phase)
    (hhere : sub.isGone = false) : ∃ q, sub.Stage f next q phase ∧ sub.Queued f next q := by
  obtain ⟨q, hstage, hqueued⟩ := h
  exact ⟨q, hphase ▸ hstage, hqueued hhere⟩

/-- The cache is asked while no batch is on its way. -/
theorem Streams.backfill (hkey : ∀ k, ∀ e ∈ f k, e.seq = k) (hcache : cache.Holds (span f 1 next))
    (hresumes : sub.Resumes) (hphase : sub.phase = .range) (h : sub.Streams f next) :
    (sub.backfill cache socket).Streams f next := by
  obtain ⟨q, ⟨hwritten, hpending, hlast⟩, hqueue⟩ := h.here hphase (by simp [isGone, hphase])
  unfold Subscriber.backfill
  split
  next oldest _ =>
    split
    · have hput : (sub.put (.truncated oldest)).eventsWritten = span f 1 1 := by
        simp [hwritten, OutboundFrame.event?]
      exact ⟨q, ⟨1, 1, hput ▸ prefix_refl _, fun _ => hput⟩, fun _ => hqueue⟩
    · have hsame : (sub.goTo (.gone true)).eventsWritten = [] := hwritten
      exact ⟨q, ⟨1, 1, hsame ▸ nil_prefix, fun hok => by cases hok⟩, fun hhere => by cases hhere⟩
  next events hrange =>
    obtain ⟨hevents, hsome⟩ := hcache.range_inWindow (pairwise_span hkey) hresumes.2 hrange
    rw [filter_span hkey (by omega)] at hevents
    have hlt : sub.resumeFrom + 1 < next := by
      by_contra hge
      exact hsome (hevents.trans (span_of_le (Nat.le_of_not_lt hge)))
    have hq : q ≤ next := by
      obtain ⟨e, hq, he, -⟩ := hqueue
      exact hq.trans he
    refine ⟨q, ⟨hpending, sub.resumeFrom + 1, next, Nat.succ_pos _, hlt, le_rfl, hq, ?_,
      fun hnone => absurd hnone hsome⟩, fun _ => hqueue⟩
    have hsame : (sub.goTo (.backfill events)).eventsWritten = [] := hwritten
    rw [hsame, hevents, nil_append]
  · exact ⟨q, .inl ⟨hwritten, hpending, hlast⟩, fun _ => hqueue⟩

/-- The next event from the cache is written. -/
theorem Streams.write_backfill (hkey : ∀ k, ∀ e ∈ f k, e.seq = k) (hne : ∀ k, f k ≠ [])
    (hphase : sub.phase = .backfill (e :: events)) (h : sub.Streams f next) :
    (((sub.put (.event e)).recordDelivered e.seq).goTo (.backfill events)).Streams f next := by
  obtain ⟨q, ⟨hpending, a, m, hpos, ham, hm, hq, hwritten, -⟩, hqueue⟩ :=
    h.here hphase (by simp [isGone, hphase])
  have hput : (((sub.put (.event e)).recordDelivered e.seq).goTo (.backfill events)).eventsWritten =
      sub.eventsWritten ++ [e] := eventsWritten_put (.event e)
  refine ⟨q, ⟨hpending, a, m, hpos, ham, hm, hq, ?_, ?_⟩, fun _ => hqueue⟩
  · rw [hput, ← hwritten, append_assoc]
    rfl
  rintro rfl
  have hlast := mem_of_span_eq_concat ham (hne (m - 1)) hwritten.symm
  have hseq : e.seq = m - 1 := hkey (m - 1) e hlast
  change e.seq + 1 = m
  omega

theorem Covered.streams (hcovered : sub.Covered f next q) (hphase : sub.phase = .drain)
    (hqueue : sub.Queued f next q) : sub.Streams f next := by
  refine ⟨q, ?_, fun _ => hqueue⟩
  rw [hphase]
  exact .inr hcovered

/-- What came through the channel is kept unless it was already written. -/
theorem Streams.keep {delivery : DeliveryEvent} {channel : List DeliveryEvent}
    (hkey : ∀ k, ∀ e ∈ f k, e.seq = k) (hne : ∀ k, f k ≠ []) (hphase : sub.phase = .drain)
    (hchannel : sub.channel = delivery :: channel) (hlast : sub.lastDeliveredSeq ≠ 0)
    (h : sub.Streams f next) : ({ sub with channel }.keep delivery).Streams f next := by
  obtain ⟨q, hstage, e, hq, he, hlives, htip⟩ := h.here hphase (by simp [isGone, hphase])
  obtain ⟨-, -, hzero⟩ | ⟨a, m, hpos, ham, hm, hwritten, hseq, hpending⟩ := hstage
  · exact absurd hzero hlast
  rw [hchannel] at hlives
  cases delivery with
  | live batch =>
    obtain ⟨hlt, hbatch, hrest⟩ := batches_eq_cons hlives.symm
    have hqueue : { sub with channel }.Queued f next (q + 1) := ⟨e, hlt, he, hrest, htip⟩
    cases batch with
    | nil => exact absurd hbatch.symm (hne q)
    | cons first =>
      have hfirst : first.seq = q := hkey q first (hbatch ▸ .head _)
      unfold Subscriber.keep
      dsimp only
      split
      next hnew =>
        have hmq : m ≤ q := by omega
        refine Covered.streams ⟨a, m, hpos, ham, hm, hwritten, hseq, ?_⟩ hphase hqueue
        rw [lives_append, hpending, max_eq_right hmq, max_eq_right (hmq.trans (Nat.le_succ q)),
          batches_snoc hmq, ← hbatch]
        rfl
      next hold =>
        have hmq : q + 1 ≤ m := by omega
        refine Covered.streams ⟨a, m, hpos, ham, hm, hwritten, hseq, ?_⟩ hphase hqueue
        rw [max_eq_left hmq]
        rwa [max_eq_left (Nat.le_of_succ_le hmq)] at hpending
  | shutdown =>
    refine Covered.streams ⟨a, m, hpos, ham, hm, hwritten, hseq, ?_⟩ hphase
      ⟨e, hq, he, hlives, htip⟩
    simpa [Subscriber.keep, lives_shutdown] using hpending

theorem Streams.endDrain (hphase : sub.phase = .drain)
    (hdone : sub.channel = [] ∨ sub.lastDeliveredSeq = 0) (h : sub.Streams f next) :
    (sub.goTo .checkShutdown).Streams f next := by
  obtain ⟨q, hstage, hqueue⟩ := h.here hphase (by simp [isGone, hphase])
  obtain ⟨hwritten, hpending, -⟩ | ⟨a, m, hpos, ham, hm, hwritten, hseq, hpending⟩ := hstage
  · refine ⟨q, ⟨q, q, le_rfl, le_rfl, ?_, ?_⟩, fun _ => hqueue⟩
    · have hsame : (sub.goTo .checkShutdown).eventsWritten = [] := hwritten
      rw [hsame, span_self, append_nil]
    · have hsame : (sub.goTo .checkShutdown).pending = [] := hpending
      rw [hsame, batches_self, lives_nil]
  · have hempty : sub.channel = [] := hdone.resolve_right (by omega)
    obtain ⟨e, hq, he, hlives, htip⟩ := hqueue
    rw [hempty] at hlives
    have heq : e ≤ q := batches_eq_nil hlives.symm
    refine ⟨max m q, ⟨a, m, ham.le, le_max_left _ _, ?_, hpending⟩,
      fun _ => ⟨max m q, le_rfl, ?_, ?_, ?_⟩⟩
    · rw [append_nil]
      exact hwritten
    · exact max_le hm (hq.trans he)
    · have hsame : (sub.goTo .checkShutdown).channel = [] := hempty
      rw [hsame, batches_self, lives_nil]
    · intro hhere
      have htip := htip hhere
      omega

theorem Aligned.written (h : sub.Aligned f q []) : ∃ a b, sub.eventsWritten = span f a b := by
  obtain ⟨a, k, -, -, hwritten, -⟩ := h
  rw [append_nil] at hwritten
  exact ⟨a, k, hwritten⟩

theorem Aligned.next_live {batch : List CachedEvent} (h : sub.Aligned f q [])
    (hqueue : sub.Queued f next q) (hnext : sub.next = some (.live batch, sub')) :
    ∃ q', sub'.Aligned f q' batch ∧ sub'.Queued f next q' := by
  obtain ⟨a, k, hak, hkq, hwritten, hpending⟩ := h
  rw [append_nil] at hwritten
  unfold Subscriber.next at hnext
  split at hnext
  next pending _ hkept =>
    cases hnext
    rw [hkept] at hpending
    obtain ⟨hlt, rfl, hrest⟩ := batches_eq_cons hpending.symm
    refine ⟨q, ⟨a, k + 1, by omega, hlt, ?_, hrest⟩, hqueue⟩
    rw [span_snoc hak, ← hwritten]
    rfl
  next channel hkept hchannel =>
    cases hnext
    rw [hkept] at hpending
    obtain rfl : k = q := le_antisymm hkq (batches_eq_nil hpending.symm)
    obtain ⟨e, hq, he, hlives, htip⟩ := hqueue
    rw [hchannel] at hlives
    obtain ⟨hlt, rfl, hrest⟩ := batches_eq_cons hlives.symm
    refine ⟨k + 1, ⟨a, k + 1, by omega, le_rfl, ?_, ?_⟩, e, hlt, he, hrest, htip⟩
    · rw [span_snoc hak, ← hwritten]
      rfl
    · rw [batches_self, hkept, lives_nil]
  · cases hnext

theorem Queued.next_shutdown (hqueue : sub.Queued f next q)
    (hnext : sub.next = some (.shutdown, sub')) :
    sub'.Queued f next q ∧ sub'.eventsWritten = sub.eventsWritten := by
  unfold Subscriber.next at hnext
  split at hnext
  · cases hnext
    exact ⟨hqueue, rfl⟩
  next hchannel =>
    cases hnext
    obtain ⟨e, hq, he, hlives, htip⟩ := hqueue
    rw [hchannel] at hlives
    exact ⟨⟨e, hq, he, hlives, htip⟩, rfl⟩
  · cases hnext

theorem Aligned.write (h : sub.Aligned f q (e :: events)) :
    (sub.put (.event e)).Aligned f q events := by
  obtain ⟨a, k, hak, hkq, hwritten, hpending⟩ := h
  refine ⟨a, k, hak, hkq, ?_, hpending⟩
  rw [eventsWritten_put, ← hwritten, append_assoc]
  rfl

theorem Streams.endBackfill (hphase : sub.phase = .backfill []) (h : sub.Streams f next) :
    (sub.goTo .drain).Streams f next := by
  obtain ⟨q, ⟨hpending, a, m, hpos, ham, hm, hq, hwritten, hlast⟩, hqueue⟩ :=
    h.here hphase (by simp [isGone, hphase])
  rw [append_nil] at hwritten
  refine Covered.streams ⟨a, m, hpos, ham, hm, hwritten, hlast rfl, ?_⟩ rfl hqueue
  rw [max_eq_left hq, batches_self]
  exact congrArg lives hpending

/-- A step of the thread. -/
theorem Streams.step (hkey : ∀ k, ∀ e ∈ f k, e.seq = k) (hne : ∀ k, f k ≠ [])
    (hcache : sub.phase = .range → cache.Holds (span f 1 next)) (hresumes : sub.Resumes)
    (h : sub.Streams f next) (hstep : sub.step cache socket = some sub') : sub'.Streams f next := by
  unfold Subscriber.step at hstep
  split at hstep <;> rename_i hphase <;> have hthread := h.here hphase <;>
    simp only [isGone, hphase, forall_const] at hthread
  · cases hstep
    exact h.backfill hkey (hcache hphase) hresumes hphase
  · cases hstep
    exact h.endBackfill hphase
  · split at hstep <;> cases hstep
    · exact h.write_backfill hkey hne hphase
    · obtain ⟨q, ⟨-, a, m, -, -, -, -, hwritten, -⟩, hqueue⟩ := hthread
      exact hqueue.writeFailed hwritten
  · split at hstep
    next hchannel =>
      split at hstep <;> cases hstep
      next hzero => exact h.endDrain hphase (.inr hzero)
      next hlast => exact h.keep hkey hne hphase hchannel hlast
    next hempty =>
      cases hstep
      exact h.endDrain hphase (.inl hempty)
  · obtain ⟨q, haligned, hqueue⟩ := hthread
    obtain ⟨a, b, hwritten⟩ := Aligned.written haligned
    split at hstep <;> cases hstep
    · exact hqueue.finish hwritten rfl
    · exact ⟨q, haligned, fun _ => hqueue⟩
  · obtain ⟨q, haligned, hqueue⟩ := hthread
    obtain ⟨a, b, hwritten⟩ := Aligned.written haligned
    split at hstep <;> cases hstep
    · exact hqueue.finish hwritten rfl
    · exact ⟨q, haligned, fun _ => hqueue⟩
  · obtain ⟨q, haligned, hqueue⟩ := hthread
    obtain ⟨a, b, hwritten⟩ := Aligned.written haligned
    split at hstep
    next hnext =>
      cases hstep
      obtain ⟨q', haligned', hqueue'⟩ := Aligned.next_live haligned hqueue hnext
      exact ⟨q', haligned', fun _ => hqueue'⟩
    next hnext =>
      cases hstep
      obtain ⟨hqueue', hsame⟩ := hqueue.next_shutdown hnext
      exact hqueue'.finish (hsame.trans hwritten) rfl
    · split at hstep <;> cases hstep
      · exact ⟨q, haligned, fun _ => hqueue⟩
      · exact ⟨q, ⟨a, b, hwritten ▸ prefix_refl _, fun _ => hwritten⟩,
          fun _ => hqueue.markDisconnected⟩
  · obtain ⟨q, haligned, hqueue⟩ := hthread
    cases hstep
    exact ⟨q, haligned, fun _ => hqueue⟩
  · obtain ⟨q, haligned, hqueue⟩ := hthread
    split at hstep <;> cases hstep
    · exact ⟨q, Aligned.write haligned, fun _ => hqueue⟩
    · obtain ⟨a, k, -, -, hwritten, -⟩ := haligned
      exact hqueue.writeFailed hwritten
  · obtain ⟨q, hprefix, -⟩ := hthread
    cases hstep
    exact ⟨q, hprefix, fun hhere => by cases hhere⟩
  · cases hstep

end Subscriber

end Threads

section Unbroken

variable {cfg : Config} {log : ℕ → List Bytes} {s s' : Server} {op : ServerOp} {id : ℕ}

/-- The thread may stand within a batch, or a write failed. -/
def Phase.midBatch : Phase → Bool
  | backfill _ | write _ _ => true
  | unregister writeFailed | gone writeFailed => writeFailed
  | _ => false

/-- What was written is a piece of the log, and its last batch is whole. -/
def Subscriber.Unbroken (log : ℕ → List Bytes) (sub : Subscriber) : Prop :=
  ∃ a b, sub.eventsWritten <+: span (Server.batch log) a b ∧
    (sub.phase.midBatch = false → sub.eventsWritten = span (Server.batch log) a b)

def ServerOp.isOffer : ServerOp → Bool
  | offer => true
  | _ => false

/-- The subscriber is the next to be offered the batch. -/
def Server.offersTo (s : Server) (id : ℕ) : Bool :=
  match s.extractor with
  | .offer _ (first :: _) => first = id
  | _ => false

/-- No batch is dropped for a subscriber that stays. -/
def KeepsUp (cfg : Config) (id : ℕ) (e : Entry Server ServerOp Unit) : Prop :=
  e.call.isOffer → e.pre.offersTo id → ∀ sub ∈ e.pre.subscribers id, sub.TakesOrLeaves cfg

instance (cfg : Config) : DecidablePred (TakesOrLeaves cfg) :=
  fun sub => inferInstanceAs (Decidable (sub.disconnected ∨ _ ∨ _ ∨ _))

instance (cfg : Config) (id : ℕ) : DecidablePred (KeepsUp cfg id) :=
  fun e => inferInstanceAs (Decidable (e.call.isOffer → _ → ∀ sub ∈ e.pre.subscribers id, _))

variable {sub : Subscriber} {a b : ℕ}

theorem Subscriber.unbroken_of_eq (h : sub.eventsWritten = span (Server.batch log) a b) :
    sub.Unbroken log :=
  ⟨a, b, h ▸ prefix_refl _, fun _ => h⟩

theorem Subscriber.unbroken_of_append {rest : List CachedEvent}
    (h : sub.eventsWritten ++ rest = span (Server.batch log) a b)
    (hmid : sub.phase.midBatch = true) : sub.Unbroken log :=
  ⟨a, b, ⟨rest, h⟩, fun hwhole => by simp [hmid] at hwhole⟩

theorem Subscriber.Untouched.unbroken (h : sub.Untouched) : sub.Unbroken log :=
  unbroken_of_eq (h.1.trans (span_self (a := 0)).symm)

theorem Subscriber.Streams.unbroken {next : ℕ} (h : sub.Streams (Server.batch log) next) :
    sub.Unbroken log := by
  obtain ⟨q, hstage, -⟩ := h
  cases hphase : sub.phase with
  | range =>
    rw [hphase] at hstage
    exact Untouched.unbroken hstage
  | backfill =>
    rw [hphase] at hstage
    obtain ⟨-, a, m, -, -, -, -, hwritten, -⟩ := hstage
    exact unbroken_of_append hwritten (by rw [hphase]; rfl)
  | drain =>
    rw [hphase] at hstage
    rcases hstage with huntouched | ⟨a, m, -, -, -, hwritten, -⟩
    · exact huntouched.unbroken
    · exact unbroken_of_eq hwritten
  | write =>
    rw [hphase] at hstage
    obtain ⟨a, k, -, -, hwritten, -⟩ := hstage
    exact unbroken_of_append hwritten (by rw [hphase]; rfl)
  | checkShutdown | checkDisconnected | receive =>
    rw [hphase] at hstage
    obtain ⟨a, b, hwritten⟩ := Aligned.written hstage
    exact unbroken_of_eq hwritten
  | unregister | gone =>
    rw [hphase] at hstage
    obtain ⟨a, b, hcut, hwhole⟩ := hstage
    exact ⟨a, b, hcut, by rwa [hphase]⟩

/-- A step of the server, seen from one subscriber. -/
theorem Subscriber.Streams.server_step {sub' : Subscriber} (hlog : ∀ seq, log seq ≠ [])
    (hsound : s.Sound log) (hbefore : ∀ sub, s.subscribers id = some sub → sub.Resumes →
      sub.Streams (Server.batch log) (s.nextOffer id))
    (hstep : (server cfg log).step s op = some (s', ())) (hkeeps : KeepsUp cfg id ⟨s, op, ()⟩)
    (hsub : s'.subscribers id = some sub') (hresumes : sub'.Resumes) :
    sub'.Streams (Server.batch log) (s'.nextOffer id) := by
  cases Server.effect_of_step hsound hstep hsub with
  | same hfound hle hoffer =>
    have h := hbefore sub' hfound hresumes
    cases hgone : sub'.isGone with
    | false => rwa [hoffer hlog hgone]
    | true =>
      obtain ⟨q, hstage, -⟩ := h
      exact ⟨q, hstage.mono hle, fun hhere => by simp [hgone] at hhere⟩
  | offered sub hfound hop hnext heq hoffer =>
    subst heq hop
    obtain ⟨events, todo, hextractor⟩ := hnext
    have hto : s.offersTo id := by simp [Server.offersTo, hextractor]
    have htakes := hkeeps rfl hto sub hfound
    unfold Resumes at hresumes
    rw [sub.resumeFrom_tryEnqueue] at hresumes
    rw [hoffer]
    exact (hbefore sub hfound hresumes).tryEnqueue htakes
  | told sub hfound heq hoffer =>
    subst heq
    unfold Resumes at hresumes
    rw [sub.resumeFrom_requestShutdown] at hresumes
    rw [hoffer]
    exact (hbefore sub hfound hresumes).requestShutdown
  | created resumeFrom _ heq =>
    subst heq
    exact streams_new resumeFrom
  | moved sub _ hfound hfree hmove hoffer =>
    unfold Resumes at hresumes
    rw [resumeFrom_of_step hmove] at hresumes
    rw [hoffer]
    refine (hbefore sub hfound hresumes).step (fun k e he => Server.seq_of_mem_batch he)
      (fun k => by simpa [Server.batch] using hlog k) (fun hrange => ?_) hresumes hmove
    have hnext : s.nextOffer id = s.nextSeq := by simp [Server.nextOffer, hfree hrange]
    rw [hnext]
    exact hsound.cache

/-- In a run where no batch is dropped for a subscriber that stays, what is written to it is an
unbroken piece of the log. -/
theorem delivery_has_no_gap
    {h : List (Entry Server ServerOp Unit)}
    (hlog : ∀ seq, log seq ≠ [])
    (hrun : Run (server cfg log) (Server.start cfg) h s)
    (hkeeps : ∀ e ∈ h, KeepsUp cfg id e)
    {sub : Subscriber}
    (hsub : s.subscribers id = some sub)
    (hresumes : sub.Resumes) :
    sub.Unbroken log := by
  have hall : ∀ sub, s.subscribers id = some sub → sub.Resumes →
      sub.Streams (Server.batch log) (s.nextOffer id) := by
    refine hrun.invariant_of_guard (KeepsUp cfg id)
      (fun _ s => ∀ sub, s.subscribers id = some sub → sub.Resumes →
        sub.Streams (Server.batch log) (s.nextOffer id)) ?_ ?_ hkeeps
    · intro sub hsub
      cases hsub
    · intro h s op s' _ hprev hbefore hstep hguard sub' hsub' hresumes'
      exact Streams.server_step hlog (Server.sound_of_run hprev) hbefore hstep hguard
        hsub' hresumes'
  exact (hall sub hsub hresumes).unbroken

theorem delivery_has_no_gap_late :
    ∃ h s sub,
      Run (server sampleConfig sampleLog) (Server.start sampleConfig) h s ∧
      (∀ e ∈ h, KeepsUp sampleConfig 0 e) ∧
      s.subscribers 0 = some sub ∧
      sub.Resumes ∧
      sub.eventsWritten = [⟨2, [7]⟩, ⟨3, [7]⟩] ∧
      sub.Unbroken sampleLog := by
  obtain ⟨h, s, hrun, hkeeps, sub, hsub, hresumes, hwritten⟩ :=
    Run.exists_of_decide (server sampleConfig sampleLog) (.start sampleConfig) lateClient
      (fun h s => (∀ e ∈ h, KeepsUp sampleConfig 0 e) ∧ ∃ sub ∈ s.subscribers 0,
        sub.Resumes ∧ sub.eventsWritten = [⟨2, [7]⟩, ⟨3, [7]⟩]) (by decide +kernel)
  exact ⟨h, s, sub, hrun, hkeeps, hsub, hresumes, hwritten,
    delivery_has_no_gap (fun _ => cons_ne_nil _ _) hrun hkeeps hsub hresumes⟩

/-- The third frame finds the channel full and is dropped, the fourth does not. -/
def slowClient : List ServerOp :=
  [.extract, .snapshot, .release, .subscribe 1] ++ List.replicate 4 (.dispatch 0 writable) ++
    readFrame ++ readFrame ++ List.replicate 5 (.dispatch 0 writable) ++ readFrame ++
      List.replicate 2 (.dispatch 0 writable)

theorem seq_of_span_sampleLog {e : CachedEvent} {events : List CachedEvent}
    (h : e :: events = span (Server.batch sampleLog) a b) :
    e.seq = a ∧ events = span (Server.batch sampleLog) (a + 1) b := by
  have hlt : a < b := by
    by_contra hge
    rw [span_of_le (Nat.le_of_not_lt hge)] at h
    cases h
  rw [span_cons hlt] at h
  obtain ⟨rfl, hrest⟩ := List.cons.inj h
  exact ⟨rfl, hrest⟩

theorem delivery_has_gap :
    ∃ h s sub,
      Run (server sampleConfig sampleLog) (Server.start sampleConfig) h s ∧
      s.subscribers 0 = some sub ∧
      sub.Resumes ∧
      sub.eventsWritten = [⟨2, [7]⟩, ⟨4, [7]⟩] ∧
      ¬ sub.Unbroken sampleLog := by
  obtain ⟨h, s, hrun, sub, hsub, hresumes, hwritten⟩ :=
    Run.exists_of_decide (server sampleConfig sampleLog) (.start sampleConfig) slowClient
      (fun _ s => ∃ sub ∈ s.subscribers 0,
        sub.Resumes ∧ sub.eventsWritten = [⟨2, [7]⟩, ⟨4, [7]⟩]) (by decide +kernel)
  refine ⟨h, s, sub, hrun, hsub, hresumes, hwritten, ?_⟩
  rintro ⟨a, b, ⟨rest, hcut⟩, -⟩
  rw [hwritten] at hcut
  obtain ⟨hfirst, hthen⟩ := seq_of_span_sampleLog hcut
  obtain ⟨hsecond, -⟩ := seq_of_span_sampleLog hthen
  simp only at hfirst hsecond
  omega

end Unbroken

end Knomosis.Subscribe
