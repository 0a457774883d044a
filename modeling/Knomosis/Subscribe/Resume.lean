import Knomosis.Subscribe.Steps

/-!
# Resuming

A client who comes back names the last number it has.  The cache is asked for what
is above, but what comes through the channel is not compared with it.  So the client
is told only of what is new if, when it registers, the server has already offered
everything up to that number; a server that reads its log again from the start has
not.
-/

namespace Knomosis.Subscribe

open Lib Smt List

/-- The event in a frame. -/
def OutboundFrame.event? : OutboundFrame → Option CachedEvent
  | event e => some e
  | _ => none

def DeliveryEvent.events : DeliveryEvent → List CachedEvent
  | live batch => batch
  | shutdown => []

/-- What the thread is about to write. -/
def Phase.events : Phase → List CachedEvent
  | backfill events => events
  | write _ events => events
  | _ => []

namespace Subscriber

def eventsWritten (sub : Subscriber) : List CachedEvent :=
  sub.written.filterMap OutboundFrame.event?

/-- The events that were written, or are on their way. -/
def events (sub : Subscriber) : List CachedEvent :=
  sub.eventsWritten ++
    (sub.phase.events ++ (sub.pending ++ sub.channel).flatMap DeliveryEvent.events)

/-- The subscriber resumes after a number. -/
def Resumes (sub : Subscriber) : Prop := 0 < sub.resumeFrom ∧ sub.resumeFrom < FROM_OLDEST

instance : DecidablePred Resumes := fun sub => inferInstanceAs (Decidable (0 < sub.resumeFrom ∧ _))

variable {cfg : Config} {sub sub' : Subscriber} {cache : EventCache} {socket : Socket}

@[simp] theorem eventsWritten_put (frame : OutboundFrame) :
    (sub.put frame).eventsWritten = sub.eventsWritten ++ frame.event?.toList := by
  cases frame <;> simp [eventsWritten, put, OutboundFrame.event?]

theorem eventsWritten_subset (sub : Subscriber) : sub.eventsWritten ⊆ sub.events :=
  subset_append_left _ _

theorem phase_events_subset (sub : Subscriber) : sub.phase.events ⊆ sub.events :=
  fun _ he => mem_append_right _ (mem_append_left _ he)

variable {delivery : DeliveryEvent} {phase : Phase} {e : CachedEvent} {frame : OutboundFrame}

theorem queued_events_subset (hqueued : delivery ∈ sub.pending ++ sub.channel) :
    delivery.events ⊆ sub.events :=
  fun _ he => mem_append_right _ (mem_append_right _ (mem_flatMap_of_mem hqueued he))

/-- Nothing is made up: what is written or about to be was on its way, and what is queued was
queued. -/
theorem events_subset (hwritten : sub'.eventsWritten ⊆ sub.events)
    (hphase : sub'.phase.events ⊆ sub.events)
    (hqueue : sub'.pending ++ sub'.channel ⊆ sub.pending ++ sub.channel) :
    sub'.events ⊆ sub.events := by
  intro e he
  rcases mem_append.mp he with he | he
  · exact hwritten he
  rcases mem_append.mp he with he | he
  · exact hphase he
  · obtain ⟨delivery, hdelivery, he⟩ := mem_flatMap.mp he
    exact queued_events_subset (hqueue hdelivery) he

theorem mem_events_goTo (he : e ∈ (sub.goTo phase).events) : e ∈ phase.events ∨ e ∈ sub.events := by
  rcases mem_append.mp he with hwritten | hrest
  · exact .inr (sub.eventsWritten_subset hwritten)
  rcases mem_append.mp hrest with hphase | hqueued
  · exact .inl hphase
  · exact .inr (mem_append_right _ (mem_append_right _ hqueued))

theorem events_goTo_subset (sub : Subscriber) (hphase : phase.events = []) :
    (sub.goTo phase).events ⊆ sub.events := by
  intro e he
  refine (mem_events_goTo he).resolve_left ?_
  simp [hphase]

theorem events_put_subset (hframe : frame.event? = none) : (sub.put frame).events ⊆ sub.events := by
  have hsame : (sub.put frame).eventsWritten = sub.eventsWritten := by simp [hframe]
  exact events_subset (hsame ▸ sub.eventsWritten_subset) sub.phase_events_subset
    (List.Subset.refl _)

theorem events_finish_subset (hframe : frame.event? = none) :
    (sub.finish socket frame).events ⊆ sub.events := by
  intro e he
  have hlast := events_goTo_subset _ rfl he
  split at hlast
  · exact events_put_subset hframe hlast
  · exact hlast

theorem events_write_subset (hevents : sub.phase.events = e :: phase.events) :
    ((sub.put (.event e)).goTo phase).events ⊆ sub.events := by
  have hwrites : e :: phase.events ⊆ sub.events := hevents ▸ sub.phase_events_subset
  obtain ⟨hfirst, hrest⟩ := cons_subset.mp hwrites
  refine events_subset ?_ hrest (List.Subset.refl _)
  have hput : ((sub.put (.event e)).goTo phase).eventsWritten = sub.eventsWritten ++ [e] :=
    eventsWritten_put (.event e)
  rw [hput]
  exact append_subset.mpr ⟨sub.eventsWritten_subset, cons_subset.mpr ⟨hfirst, nil_subset _⟩⟩

theorem events_keep_subset {channel : List DeliveryEvent}
    (hchannel : sub.channel = delivery :: channel) :
    ({ sub with channel }.keep delivery).events ⊆ sub.events := by
  have hdrop : sub.pending ++ channel ⊆ sub.pending ++ sub.channel := by
    rw [hchannel]
    exact append_subset.mpr ⟨subset_append_left _ _,
      subset_append_of_subset_right _ (subset_cons_self _ _)⟩
  have hkeep : sub.pending ++ [delivery] ++ channel ⊆ sub.pending ++ sub.channel := by
    simp [hchannel]
  unfold keep
  split
  · split
    · exact events_subset sub.eventsWritten_subset sub.phase_events_subset hkeep
    · exact events_subset sub.eventsWritten_subset sub.phase_events_subset hdrop
  · exact events_subset sub.eventsWritten_subset sub.phase_events_subset hdrop
  · exact events_subset sub.eventsWritten_subset sub.phase_events_subset hkeep

theorem next_spec (hnext : sub.next = some (delivery, sub')) :
    ∃ pending channel, sub' = { sub with pending, channel } ∧
      delivery :: (pending ++ channel) = sub.pending ++ sub.channel := by
  unfold next at hnext
  split at hnext
  next hpending =>
    cases hnext
    exact ⟨_, sub.channel, rfl, by simp [hpending]⟩
  next hpending hchannel =>
    cases hnext
    exact ⟨sub.pending, _, rfl, by simp [hpending, hchannel]⟩
  · cases hnext

theorem events_next_subset (hnext : sub.next = some (delivery, sub')) :
    delivery.events ⊆ sub.events ∧ sub'.events ⊆ sub.events := by
  obtain ⟨pending, channel, rfl, hqueue⟩ := next_spec hnext
  refine ⟨queued_events_subset (hqueue ▸ .head _), ?_⟩
  refine events_subset sub.eventsWritten_subset sub.phase_events_subset ?_
  rw [← hqueue]
  exact subset_cons_self _ _

theorem mem_events_backfill (he : e ∈ (sub.backfill cache socket).events) :
    e ∈ sub.events ∨ ∃ events, cache.range sub.resumeFrom = .inWindow events ∧ e ∈ events := by
  unfold backfill at he
  split at he
  · split at he
    · exact .inl (events_put_subset rfl (events_goTo_subset _ rfl he))
    · exact .inl (events_goTo_subset _ rfl he)
  next events hrange =>
    rcases mem_events_goTo he with hanswer | hold
    · exact .inr ⟨events, hrange, hanswer⟩
    · exact .inl hold
  · exact .inl (events_goTo_subset _ rfl he)

theorem mem_events_of_step (hstep : sub.step cache socket = some sub') (he : e ∈ sub'.events) :
    e ∈ sub.events ∨ ∃ events, cache.range sub.resumeFrom = .inWindow events ∧ e ∈ events := by
  unfold step at hstep
  split at hstep <;> rename_i hphase
  · cases hstep
    exact mem_events_backfill he
  all_goals left
  · cases hstep
    exact sub.events_goTo_subset rfl he
  next written rest =>
    have hnext : sub.phase.events = written :: (Phase.backfill rest).events := by
      rw [hphase]
      rfl
    split at hstep <;> cases hstep
    · exact events_write_subset hnext he
    · exact sub.events_goTo_subset rfl he
  · split at hstep
    next hchannel =>
      split at hstep <;> cases hstep
      · exact sub.events_goTo_subset rfl he
      · exact events_keep_subset hchannel he
    · cases hstep
      exact sub.events_goTo_subset rfl he
  · split at hstep <;> cases hstep
    · exact events_finish_subset rfl he
    · exact sub.events_goTo_subset rfl he
  · split at hstep <;> cases hstep
    · exact events_finish_subset rfl he
    · exact sub.events_goTo_subset rfl he
  · split at hstep
    next batch taken hnext =>
      cases hstep
      obtain ⟨hbatch, htaken⟩ := events_next_subset hnext
      exact (mem_events_goTo he).elim (fun hwrite => hbatch hwrite) (fun hold => htaken hold)
    next hnext =>
      cases hstep
      exact (events_next_subset hnext).2 (events_finish_subset rfl he)
    · split at hstep <;> cases hstep <;> exact sub.events_goTo_subset rfl he
  · cases hstep
    exact sub.events_goTo_subset rfl he
  next seq written rest =>
    have hnext : sub.phase.events = written :: (Phase.write seq rest).events := by
      rw [hphase]
      rfl
    split at hstep <;> cases hstep
    · exact events_write_subset hnext he
    · exact sub.events_goTo_subset rfl he
  · cases hstep
    exact sub.events_goTo_subset rfl he
  · cases hstep

theorem resumeFrom_finish (frame : OutboundFrame) :
    (sub.finish socket frame).resumeFrom = sub.resumeFrom := by
  unfold finish
  split <;> rfl

theorem resumeFrom_keep (delivery : DeliveryEvent) :
    (sub.keep delivery).resumeFrom = sub.resumeFrom := by
  unfold keep
  split
  · split <;> rfl
  · rfl
  · rfl

theorem resumeFrom_next (hnext : sub.next = some (delivery, sub')) :
    sub'.resumeFrom = sub.resumeFrom := by
  obtain ⟨_, _, rfl, -⟩ := next_spec hnext
  rfl

theorem resumeFrom_of_step (hstep : sub.step cache socket = some sub') :
    sub'.resumeFrom = sub.resumeFrom := by
  unfold step at hstep
  split at hstep
  · cases hstep
    unfold backfill
    split
    · split <;> rfl
    · rfl
    · rfl
  · cases hstep
    rfl
  · split at hstep <;> cases hstep <;> rfl
  · split at hstep
    · split at hstep <;> cases hstep
      · rfl
      · exact resumeFrom_keep _
    · cases hstep
      rfl
  · split at hstep <;> cases hstep
    · exact resumeFrom_finish _
    · rfl
  · split at hstep <;> cases hstep
    · exact resumeFrom_finish _
    · rfl
  · split at hstep
    next hnext =>
      cases hstep
      have htaken := resumeFrom_next hnext
      exact htaken
    next hnext =>
      cases hstep
      exact (resumeFrom_finish _).trans (resumeFrom_next hnext)
    · split at hstep <;> cases hstep <;> rfl
  · cases hstep
    rfl
  · split at hstep <;> cases hstep <;> rfl
  · cases hstep
    rfl
  · cases hstep

theorem resumeFrom_tryEnqueue (sub : Subscriber) (batch : List CachedEvent) :
    (sub.tryEnqueue cfg batch).resumeFrom = sub.resumeFrom := by
  unfold tryEnqueue
  split
  · rfl
  split
  · rfl
  split
  · rfl
  · dsimp only
    split <;> rfl

theorem resumeFrom_requestShutdown (sub : Subscriber) :
    (sub.requestShutdown cfg).resumeFrom = sub.resumeFrom := by
  unfold requestShutdown
  split
  · rfl
  dsimp only
  split
  · rfl
  split <;> rfl

/-- A delivery goes to the end of the queue. -/
theorem mem_events_enqueue (sub : Subscriber) (he : e ∈ sub'.events)
    (hwritten : sub'.written = sub.written) (hphase : sub'.phase = sub.phase)
    (hqueue : sub'.pending ++ sub'.channel = sub.pending ++ sub.channel ++ [delivery]) :
    e ∈ delivery.events ∨ e ∈ sub.events := by
  have hevents : sub'.events = sub.events ++ delivery.events := by
    simp only [events, eventsWritten, hwritten, hphase, hqueue, flatMap_append,
      flatMap_singleton, append_assoc]
  rw [hevents] at he
  exact (mem_append.mp he).symm

theorem mem_events_tryEnqueue {batch : List CachedEvent}
    (he : e ∈ (sub.tryEnqueue cfg batch).events) : e ∈ batch ∨ e ∈ sub.events := by
  unfold tryEnqueue at he
  split at he
  · exact .inr he
  split at he
  · exact .inr he
  split at he
  · exact mem_events_enqueue sub he rfl rfl (append_assoc _ _ _).symm
  · dsimp only at he
    split at he <;> exact .inr he

theorem events_requestShutdown_subset : (sub.requestShutdown cfg).events ⊆ sub.events := by
  intro e he
  unfold requestShutdown at he
  split at he
  · exact he
  dsimp only at he
  split at he
  · exact he
  split at he
  · refine (mem_events_enqueue sub he rfl rfl (append_assoc _ _ _).symm).resolve_left ?_
    exact not_mem_nil
  · exact he

end Subscriber

section Newer

variable {cfg : Config} {log : ℕ → List Bytes} {s s' : Server} {op : ServerOp}

/-- A subscriber who resumes is told, and will be told, only of what it does not have. -/
def Server.NewerOnly (s : Server) (id : ℕ) (sub : Subscriber) : Prop :=
  sub.Resumes → sub.resumeFrom < s.nextOffer id ∧ ∀ e ∈ sub.events, sub.resumeFrom < e.seq

/-- The number that a registration names. -/
def ServerOp.resumeFrom? : ServerOp → Option ℕ
  | subscribe resumeFrom => some resumeFrom
  | _ => none

/-- A registration that comes after the server has offered all that the client has. -/
def CaughtUp (e : Entry Server ServerOp Unit) : Prop :=
  ∀ resumeFrom ∈ e.call.resumeFrom?, 0 < resumeFrom → resumeFrom < FROM_OLDEST →
    resumeFrom < e.pre.nextOffer e.pre.nextId

instance : DecidablePred CaughtUp :=
  fun e => inferInstanceAs (Decidable (∀ resumeFrom ∈ e.call.resumeFrom?, _ → _ → _))

theorem EventCache.lt_of_range
    {cache : EventCache} {fromSeq : ℕ} {events : List CachedEvent} {e : CachedEvent}
    (hresume : fromSeq < FROM_OLDEST) (hrange : cache.range fromSeq = .inWindow events)
    (he : e ∈ events) : fromSeq < e.seq := by
  have habove : events = cache.above fromSeq := by
    unfold EventCache.range at hrange
    split at hrange
    · rw [if_neg hresume.ne] at hrange
      split at hrange
      · cases hrange
      split at hrange
      · cases hrange
      split at hrange
      · cases hrange
      split at hrange
      · cases hrange
      · exact (RangeOutcome.inWindow.inj hrange).symm
    · cases hrange
  rw [habove] at he
  simpa using (mem_filter.mp he).2

theorem Server.NewerOnly.step {id : ℕ} {sub' : Subscriber} (hsound : s.Sound log)
    (hbefore : ∀ sub, s.subscribers id = some sub → s.NewerOnly id sub)
    (hstep : (server cfg log).step s op = some (s', ())) (hcaught : CaughtUp ⟨s, op, ()⟩)
    (hsub : s'.subscribers id = some sub') : s'.NewerOnly id sub' := by
  cases effect_of_step hsound hstep hsub with
  | same hfound hle =>
    intro hresumes
    obtain ⟨hoffer, hevents⟩ := hbefore sub' hfound hresumes
    exact ⟨hoffer.trans_le hle, hevents⟩
  | offered sub hfound _ _ heq hoffer =>
    subst heq
    unfold NewerOnly Subscriber.Resumes
    rw [sub.resumeFrom_tryEnqueue, hoffer]
    intro hresumes
    obtain ⟨hlt, hevents⟩ := hbefore sub hfound hresumes
    refine ⟨hlt.trans (Nat.lt_succ_self _), fun e he => ?_⟩
    rcases Subscriber.mem_events_tryEnqueue he with hnew | hold
    · rwa [Server.seq_of_mem_batch hnew]
    · exact hevents e hold
  | told sub hfound heq hoffer =>
    subst heq
    unfold NewerOnly Subscriber.Resumes
    rw [sub.resumeFrom_requestShutdown, hoffer]
    intro hresumes
    obtain ⟨hlt, hevents⟩ := hbefore sub hfound hresumes
    exact ⟨hlt, fun e he => hevents e (Subscriber.events_requestShutdown_subset he)⟩
  | created resumeFrom hop heq hid hoffer =>
    subst heq hid hop
    intro hresumes
    rw [hoffer]
    exact ⟨hcaught resumeFrom rfl hresumes.1 hresumes.2, fun e he => by cases he⟩
  | moved sub _ hfound _ hmove hoffer =>
    unfold NewerOnly Subscriber.Resumes
    rw [Subscriber.resumeFrom_of_step hmove, hoffer]
    intro hresumes
    obtain ⟨hlt, hevents⟩ := hbefore sub hfound hresumes
    refine ⟨hlt, fun e he => ?_⟩
    rcases Subscriber.mem_events_of_step hmove he with hold | ⟨events, hrange, hanswer⟩
    · exact hevents e hold
    · exact EventCache.lt_of_range hresumes.2 hrange hanswer

/-- In a run where every client who resumes registers after the server has offered all that the
client has, nobody who resumes is told of what it has. -/
theorem resumed_sees_only_newer
    {h : List (Entry Server ServerOp Unit)}
    (hrun : Run (server cfg log) (Server.start cfg) h s)
    (hcaught : ∀ e ∈ h, CaughtUp e)
    {id : ℕ}
    {sub : Subscriber}
    (hsub : s.subscribers id = some sub)
    (hresumes : sub.Resumes) :
    ∀ e ∈ sub.eventsWritten, sub.resumeFrom < e.seq := by
  have hall : ∀ id sub, s.subscribers id = some sub → s.NewerOnly id sub := by
    refine hrun.invariant_of_guard CaughtUp
      (fun _ s => ∀ id sub, s.subscribers id = some sub → s.NewerOnly id sub) ?_ ?_ hcaught
    · intro id sub hsub
      cases hsub
    · intro h s op s' _ hprev hbefore hstep hguard id sub' hsub'
      exact Server.NewerOnly.step (Server.sound_of_run hprev) (hbefore id) hstep hguard hsub'
  intro e he
  exact (hall id sub hsub hresumes).2 e (sub.eventsWritten_subset he)

/-- One slot in a channel, and a frame with one event for every number. -/
def sampleConfig : Config := ⟨1, 1, 0, 8⟩

def sampleLog (_ : ℕ) : List Bytes := [[7]]

def writable : Socket := ⟨true, true⟩

/-- One frame of the log, read and offered. -/
def readFrame : List ServerOp := [.extract, .snapshot, .offer, .release]

/-- A server that has read two frames, a client who has the first of them, and a third frame. -/
def lateClient : List ServerOp :=
  [.extract, .snapshot, .release, .extract, .snapshot, .release, .subscribe 1,
    .dispatch 0 writable, .dispatch 0 writable] ++ readFrame ++
      List.replicate 7 (.dispatch 0 writable)

/-- The client is told of the second frame out of the cache, and of the third as it comes. -/
theorem resumed_sees_only_newer_late :
    ∃ h s sub,
      Run (server sampleConfig sampleLog) (Server.start sampleConfig) h s ∧
      (∀ e ∈ h, CaughtUp e) ∧
      s.subscribers 0 = some sub ∧
      sub.Resumes ∧
      sub.eventsWritten = [⟨2, [7]⟩, ⟨3, [7]⟩] ∧
      ∀ e ∈ sub.eventsWritten, sub.resumeFrom < e.seq := by
  obtain ⟨h, s, hrun, hcaught, sub, hsub, hresumes, hwritten⟩ :=
    Run.exists_of_decide (server sampleConfig sampleLog) (.start sampleConfig) lateClient
      (fun h s => (∀ e ∈ h, CaughtUp e) ∧ ∃ sub ∈ s.subscribers 0,
        sub.Resumes ∧ sub.eventsWritten = [⟨2, [7]⟩, ⟨3, [7]⟩]) (by decide +kernel)
  exact ⟨h, s, sub, hrun, hcaught, hsub, hresumes, hwritten,
    resumed_sees_only_newer hrun hcaught hsub hresumes⟩

/-- A client who has five frames, and a server that has just been started. -/
def earlyClient : List ServerOp :=
  [.subscribe 5, .dispatch 0 writable, .dispatch 0 writable, .dispatch 0 writable,
    .dispatch 0 writable, .extract, .snapshot, .offer, .release, .dispatch 0 writable,
    .dispatch 0 writable]

/-- The client is told of the first frame again. -/
theorem resumed_sees_old_event :
    ∃ h s sub,
      Run (server sampleConfig sampleLog) (Server.start sampleConfig) h s ∧
      s.subscribers 0 = some sub ∧
      sub.Resumes ∧
      ∃ e ∈ sub.eventsWritten, e.seq < sub.resumeFrom := by
  obtain ⟨h, s, hrun, sub, hfacts⟩ :=
    Run.exists_of_decide (server sampleConfig sampleLog) (.start sampleConfig) earlyClient
      (fun _ s => ∃ sub ∈ s.subscribers 0,
        sub.Resumes ∧ ∃ e ∈ sub.eventsWritten, e.seq < sub.resumeFrom) (by decide +kernel)
  exact ⟨h, s, sub, hrun, hfacts⟩

end Newer

end Knomosis.Subscribe
