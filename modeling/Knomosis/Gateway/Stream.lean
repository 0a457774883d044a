import Knomosis.Gateway.Ring

/-!
# Streams from the ring

A client of the event stream asks for the records after a cursor, or for the live
tail.  Its thread reads the ring, writes what it has read, and reads again, while
others push into the ring and report gaps.  The position of the cursor decides
whether it is told that it has fallen behind.
-/

namespace Knomosis.Gateway

open Lib List Option

/-- Where a client wants to start. -/
inductive ResumePoint where
  | liveTail
  | after (cursor : Cursor)
deriving DecidableEq

/-- What is done about a start. -/
inductive ResumeAction where
  | stream (cursor : Cursor)
  | liveTail
  | behind (oldestSeq : ℕ)
  | truncated

/-- Streams from a cursor only if the ring holds all that follows it. -/
def classifyResume (ring : EventRing) (point : ResumePoint) (upstreamOldest : Option ℕ) :
    ResumeAction :=
  match point with
  | .liveTail => .liveTail
  | .after cursor =>
    match ring.position cursor with
    | .inWindow | .atTail => .stream cursor
    | .behind oldestSeq =>
      match upstreamOldest with
      | some upstream => if cursor.seq < upstream then .truncated else .behind oldestSeq
      | none => .behind oldestSeq

/-- Why a stream ends. -/
inductive StreamEnd where
  | disconnected
  | evicted
  | fault
  | shuttingDown
deriving DecidableEq

/-- A client: not there yet, with its cursor and what it has read and not written, or gone. -/
inductive Client where
  | absent
  | streaming (cursor : Option Cursor) (queue : List EventRecord)
  | ended (reason : StreamEnd)
deriving DecidableEq

/-- A client and what was written to it. -/
structure Stream where
  client : Client
  written : List EventRecord

/-- What the thread of a client does next. -/
inductive StreamOp where
  | connect (point : ResumePoint)
  | poll
  | write
  | stop (reason : StreamEnd)
deriving DecidableEq

/-- A step of the client's thread.  The live tail is left open until the ring can name it. -/
def Stream.step (types : List String) (maxClientLag : ℕ) (ring : EventRing) (s : Stream)
    (op : StreamOp) : Option Stream :=
  match op, s.client with
  | .connect point, .absent =>
    match classifyResume ring point none with
    | .stream cursor => some { s with client := .streaming (some cursor) [] }
    | .liveTail => some { s with client := .streaming none [] }
    | .behind _ | .truncated => some { s with client := .ended .evicted }
  | .poll, .streaming none [] => some { s with client := .streaming ring.newest [] }
  | .poll, .streaming (some active) [] =>
    let records := ring.recordsAfter active
    if (ring.position active).isBehind ∨ maxClientLag < records.length then
      some { s with client := .ended .evicted }
    else some { s with client := .streaming (some active) records }
  | .write, .streaming _ (record :: queue) =>
    some
      { s with
        client := .streaming (some record.cursor) queue
        written := s.written ++ (if types = [] ∨ record.eventType ∈ types then [record] else []) }
  | .stop reason, .streaming _ queue =>
    if reason = .disconnected ∨ queue = [] ∧ reason ≠ .evicted then
      some { s with client := .ended reason }
    else none
  | _, _ => none

/-- The ring and one of its clients. -/
structure Fanout where
  intake : Intake
  stream : Stream

/-- The upstream feeds the ring, or the client takes a step. -/
inductive FanoutOp where
  | push (record : EventRecord)
  | noteGap (oldestAvailableSeq : ℕ)
  | client (op : StreamOp)
deriving DecidableEq

/-- An empty ring, and no client yet. -/
def Fanout.new (capacity : ℕ) : Fanout := ⟨.new capacity, ⟨.absent, []⟩⟩

/-- A step of the upstream or of the client. -/
def Fanout.step (types : List String) (maxClientLag : ℕ) (s : Fanout) :
    FanoutOp → Option (Fanout × Unit)
  | .push record => some ({ s with intake := s.intake.push record }, ())
  | .noteGap seq => some ({ s with intake := s.intake.noteGap seq }, ())
  | .client op =>
    (s.stream.step types maxClientLag s.intake.ring op).map fun stream => ({ s with stream }, ())

/-- The ring and its client as a machine. -/
def fanout (types : List String) (maxClientLag : ℕ) : Machine Fanout FanoutOp Unit where
  step := Fanout.step types maxClientLag

section Windows

variable {i : Intake} {edge : Option Cursor} {before post : List EventRecord}
variable {c : Cursor} {r : EventRecord} {l queue : List EventRecord}

/-- A client that is not behind reads all that is after its cursor. -/
theorem Intake.Fed.recordsAfter (h : i.Fed edge) (hasc : Ascending (before ++ i.accepted))
    (hindex : ∀ x ∈ before, x.index ≤ U32_MAX) (hedge : ∀ e ∈ edge, ∀ x ∈ before, x.cursor ≤ e)
    (hbuf : i.ring.buf ≠ []) (hpos : (i.ring.position c).isBehind = false) :
    i.ring.recordsAfter c = after (before ++ i.accepted) c := by
  obtain ⟨gone, haccepted, hevicted⟩ := h.window
  obtain ⟨newest, hnewest⟩ := ne_none_iff_exists'.mp (mt List.getLast?_eq_none_iff.mp hbuf)
  rw [haccepted, ← append_assoc] at hasc ⊢
  obtain ⟨hdropped, -, hheld⟩ := pairwise_append.mp hasc
  -- nothing that the ring has dropped or never held is after the cursor
  have hnone : ∀ x ∈ before ++ gone, x.cursor ≤ c := by
    intro x hx
    simp only [EventRing.position, EventRing.newest, hnewest, map_some] at hpos
    split_ifs at hpos with hle hnear
    · exact (hheld x hx newest (mem_of_getLast? hnewest)).le.trans hle
    · rw [EventRing.contiguous, hevicted] at hnear
      cases hlast : gone.getLast? with
      | some g =>
        have hle : g.cursor ≤ c := by simpa [hlast] using hnear
        refine (Ascending.le_last hdropped ?_ hx).trans hle
        rw [List.getLast?_append, hlast, some_or]
      | none =>
        rw [List.getLast?_eq_none_iff.mp hlast, append_nil] at hx
        cases hfloor : edge with
        | some e =>
          have hle : e ≤ c := by simpa [hlast, hfloor] using hnear
          exact (hedge e hfloor x hx).trans hle
        | none =>
          obtain ⟨a, buf, hcons⟩ := exists_cons_of_ne_nil hbuf
          have hlt := hheld x (mem_append_left _ hx) a (by simp [hcons])
          have hfirst : a.cursor ≤ c ∨ c.isImmediatelyBefore a.cursor = true := by
            simpa [hlast, hfloor, EventRing.oldest, hcons] using hnear
          rcases hfirst with hle | hbefore
          · exact hlt.le.trans hle
          · exact Cursor.le_of_isImmediatelyBefore hbefore (hindex x hx) hlt
    · cases hpos
  have hgone : (before ++ gone).filter (fun r => c < r.cursor) = [] :=
    filter_eq_nil_iff.mpr fun x hx => by simpa using hnone x hx
  rw [after, filter_append, hgone, nil_append]
  rfl

/-- The ring has taken a run of the list, and nothing before it is beyond the ring's floor. -/
def Intake.Within (i : Intake) (l : List EventRecord) : Prop :=
  ∃ edge before post, i.Fed edge ∧ l = before ++ i.accepted ++ post ∧
    (∀ x ∈ before, x.index ≤ U32_MAX) ∧ ∀ e ∈ edge, ∀ x ∈ before, x.cursor ≤ e

theorem Intake.Within.reads (h : i.Within l) (hasc : Ascending l)
    (hpos : (i.ring.position c).isBehind = false) : i.ring.recordsAfter c <+: after l c := by
  obtain ⟨edge, before, post, hfed, rfl, hindex, hedge⟩ := h
  by_cases hbuf : i.ring.buf = []
  · rw [EventRing.recordsAfter, hbuf]
    exact nil_prefix
  · rw [hfed.recordsAfter (pairwise_append.mp hasc).1 hindex hedge hbuf hpos]
    rw [after, after, filter_append (before ++ i.accepted)]
    exact prefix_append _ _

theorem Ascending.after_self {u rest : List EventRecord} (h : Ascending (u ++ r :: rest)) :
    after (u ++ r :: rest) r.cursor = rest := by
  obtain ⟨-, htail, hbefore⟩ := pairwise_append.mp h
  have hnone : u.filter (fun x => r.cursor < x.cursor) = [] :=
    filter_eq_nil_iff.mpr fun x hx => by simpa using (hbefore x hx r (by simp)).le
  have hall : rest.filter (fun x => r.cursor < x.cursor) = rest :=
    filter_eq_self.mpr fun x hx => by simpa using rel_of_pairwise_cons htail hx
  rw [after, filter_append, hnone, nil_append, filter_cons_of_neg (by simp), hall]

theorem after_of_next (hasc : Ascending l) (h : r :: queue <+: after l c) :
    after l c = r :: after l r.cursor ∧ queue <+: after l r.cursor := by
  obtain ⟨rest, hrest⟩ := h
  obtain ⟨u, hu, -⟩ := hasc.after_split c
  rw [← hrest] at hu
  have hsplit : after l r.cursor = queue ++ rest := by
    rw [← hu] at hasc ⊢
    exact hasc.after_self
  rw [hsplit]
  exact ⟨hrest.symm, prefix_append queue rest⟩

end Windows

namespace Stream

variable {s s' : Stream} {l : List EventRecord} {maxClientLag : ℕ} {i : Intake}
variable {begun begun' : Cursor → Prop}

/-- The step begins a stream after `c`: the client asks for it, or the live tail is named. -/
def Begins (ring : EventRing) (s : Stream) (op : StreamOp) (c : Cursor) : Prop :=
  op = .connect (.after c) ∨
    op = .poll ∧ s.client = .streaming none [] ∧ ring.newest = some c

/-- What was written, and then what is after the cursor, is what is after the cursors that the
stream has begun after. -/
structure Follows (s : Stream) (l : List EventRecord) (begun : Cursor → Prop) : Prop where
  absent : s.client = .absent → s.written = [] ∧ ∀ c, ¬ begun c
  waiting : ∀ queue, s.client = .streaming none queue →
    s.written = [] ∧ queue = [] ∧ ∀ c, ¬ begun c
  reading : ∀ cursor queue, s.client = .streaming (some cursor) queue →
    (∀ c, begun c → after l c = s.written ++ after l cursor) ∧ queue <+: after l cursor
  written : ∀ c, begun c → s.written <+: after l c

theorem Follows.anti (h : s.Follows l begun) (hsub : ∀ c, begun' c → begun c) :
    s.Follows l begun' where
  absent := fun hclient => (h.absent hclient).imp_right fun hno c hc => hno c (hsub c hc)
  waiting := fun queue hclient =>
    (h.waiting queue hclient).imp_right fun hno => hno.imp_right fun hno c hc => hno c (hsub c hc)
  reading := fun cursor queue hclient =>
    (h.reading cursor queue hclient).imp_left fun hall c hc => hall c (hsub c hc)
  written := fun c hc => h.written c (hsub c hc)

theorem follows_new (l : List EventRecord) : Follows ⟨.absent, []⟩ l (fun _ => False) :=
  ⟨by simp, by simp, by simp, by simp⟩

theorem point_of_stream {ring : EventRing} {point : ResumePoint} {cursor : Cursor}
    (h : classifyResume ring point none = .stream cursor) : point = .after cursor := by
  cases point with
  | liveTail => cases h
  | after c =>
    simp only [classifyResume] at h
    split at h <;> cases h
    all_goals rfl

/-- A stream begins after the cursor asked for, at the live tail, or not at all. -/
theorem follows_connect {point : ResumePoint} {ring : EventRing} (hnone : ∀ c, ¬ begun c)
    (hstep : Stream.step [] maxClientLag ring ⟨.absent, []⟩ (.connect point) = some s') :
    s'.Follows l (fun c => Begins ring ⟨.absent, []⟩ (.connect point) c ∨ begun c) ∧
      s'.client ≠ .absent := by
  have hbegun : ∀ c, Begins ring ⟨.absent, []⟩ (.connect point) c ∨ begun c →
      point = .after c := by
    rintro c ((hop | ⟨hop, -⟩) | hc)
    · exact StreamOp.connect.inj hop
    · cases hop
    · exact absurd hc (hnone c)
  simp only [Stream.step] at hstep
  split at hstep
  next hclass =>
    cases hstep
    cases point_of_stream hclass
    refine ⟨⟨by simp, by simp, ?_, fun _ _ => nil_prefix⟩, by simp⟩
    rintro cursor queue heq
    cases heq
    refine ⟨fun c hc => ?_, nil_prefix⟩
    cases hbegun c hc
    rfl
  next hclass =>
    cases hstep
    refine ⟨⟨by simp, ?_, by simp, fun _ _ => nil_prefix⟩, by simp⟩
    rintro queue heq
    cases heq
    refine ⟨rfl, rfl, fun c hc => ?_⟩
    cases hbegun c hc
    simp only [classifyResume] at hclass
    split at hclass <;> cases hclass
  all_goals
    cases hstep
    exact ⟨⟨by simp, by simp, by simp, fun _ _ => nil_prefix⟩, by simp⟩

theorem follows_newest {ring : EventRing} (hnone : ∀ c, ¬ begun c) :
    Follows ⟨.streaming ring.newest [], []⟩ l
      (fun c => Begins ring ⟨.streaming none [], []⟩ .poll c ∨ begun c) := by
  have hbegun : ∀ c, Begins ring ⟨.streaming none [], []⟩ .poll c ∨ begun c →
      ring.newest = some c := by
    rintro c ((hop | ⟨-, -, hnamed⟩) | hc)
    · cases hop
    · exact hnamed
    · exact absurd hc (hnone c)
  refine ⟨by simp, ?_, ?_, fun _ _ => nil_prefix⟩
  · rintro queue heq
    obtain ⟨hnewest, rfl⟩ := Client.streaming.inj heq
    exact ⟨rfl, rfl, fun c hc => by cases hnewest.symm.trans (hbegun c hc)⟩
  · rintro cursor queue heq
    obtain ⟨hnewest, rfl⟩ := Client.streaming.inj heq
    refine ⟨fun c hc => ?_, nil_prefix⟩
    cases hnewest.symm.trans (hbegun c hc)
    rfl

/-- The next record is written. -/
theorem Follows.write {cursor : Cursor} {record : EventRecord} {queue written : List EventRecord}
    (h : Follows ⟨.streaming (some cursor) (record :: queue), written⟩ l begun)
    (hasc : Ascending l) :
    Follows ⟨.streaming (some record.cursor) queue, written ++ [record]⟩ l begun := by
  obtain ⟨hstart, hqueue⟩ := h.reading cursor _ rfl
  obtain ⟨hnext, hqueue'⟩ := after_of_next hasc hqueue
  have hstart' : ∀ c, begun c → after l c = (written ++ [record]) ++ after l record.cursor :=
    fun c hc => by rw [hstart c hc, hnext, append_assoc, singleton_append]
  refine ⟨by simp, by simp, ?_, fun c hc => ?_⟩
  · rintro cursor' queue' heq
    cases heq
    exact ⟨hstart', hqueue'⟩
  · exact hstart' c hc ▸ prefix_append _ _

theorem Follows.step {op : StreamOp} (h : s.Follows l begun) (hasc : Ascending l)
    (hwithin : i.Within l) (hstep : s.step [] maxClientLag i.ring op = some s') :
    s'.Follows l (fun c => s.Begins i.ring op c ∨ begun c) ∧ s'.client ≠ .absent := by
  obtain ⟨client, written⟩ := s
  have hended : ∀ reason, Follows ⟨.ended reason, written⟩ l begun :=
    fun reason => ⟨by simp, by simp, by simp, h.written⟩
  have hconnect := hstep
  simp only [Stream.step] at hstep
  split at hstep
  · obtain ⟨rfl, hnone⟩ := h.absent rfl
    exact follows_connect hnone hconnect
  · obtain ⟨rfl, -, hnone⟩ := h.waiting [] rfl
    cases hstep
    exact ⟨follows_newest hnone, by simp⟩
  · split at hstep <;> cases hstep
    · exact ⟨(hended _).anti (by simp [Begins]), by simp⟩
    next active hpass =>
      have hpos : (i.ring.position active).isBehind = false := by simpa using (not_or.mp hpass).1
      have hreads : Follows ⟨.streaming (some active) (i.ring.recordsAfter active), written⟩ l
          begun := by
        refine ⟨by simp, by simp, ?_, h.written⟩
        rintro cursor queue heq
        cases heq
        exact ⟨(h.reading active [] rfl).1, hwithin.reads hasc hpos⟩
      exact ⟨hreads.anti (by simp [Begins]), by simp⟩
  next cursor record queue =>
    cases hstep
    cases cursor with
    | none => cases (h.waiting _ rfl).2.1
    | some cursor =>
      simp only [true_or, if_true]
      exact ⟨(h.write hasc).anti (by simp [Begins]), by simp⟩
  · split at hstep <;> cases hstep
    exact ⟨(hended _).anti (by simp [Begins]), by simp⟩
  · cases hstep

end Stream

/-- The history begins a stream after `c`. -/
def Fanout.Begun (h : List (Entry Fanout FanoutOp Unit)) (c : Cursor) : Prop :=
  ∃ e ∈ h, ∃ op, e.call = .client op ∧ e.pre.stream.Begins e.pre.intake.ring op c

theorem Fanout.begun_cons {h : List (Entry Fanout FanoutOp Unit)} {s : Fanout} {op : StreamOp}
    {c : Cursor} :
    Begun (⟨s, .client op, ()⟩ :: h) c ↔
      s.stream.Begins s.intake.ring op c ∨ Begun h c := by
  simp [Begun]

section LiveTail

variable {i : Intake} {edge : Option Cursor} {r : EventRecord}

theorem Intake.Fed.ascending_push (h : i.Fed edge) (hasc : Ascending i.accepted) :
    Ascending (i.push r).accepted ∧ i.accepted <+: (i.push r).accepted := by
  rcases (h.push r).2 with ⟨hafter, htaken⟩ | ⟨-, hsame⟩
  · rw [htaken]
    refine ⟨pairwise_append.mpr ⟨hasc, by simp, fun x hx y hy => ?_⟩, prefix_append _ _⟩
    obtain ⟨last, hlast⟩ := ne_none_iff_exists'.mp
      (mt List.getLast?_eq_none_iff.mp (ne_nil_of_mem hx))
    rw [mem_singleton.mp hy]
    exact (hasc.le_last hlast hx).trans_lt (hafter last hlast)
  · rw [hsame]
    exact ⟨hasc, prefix_rfl⟩

/-- The client follows the ring, whatever the ring is going to take. -/
structure Fanout.Live (h : List (Entry Fanout FanoutOp Unit)) (s : Fanout) : Prop where
  fed : ∃ edge, s.intake.Fed edge
  ascending : Ascending s.intake.accepted
  follows : ∀ l, Ascending l → s.intake.accepted <+: l → s.stream.Follows l (Fanout.Begun h)

theorem Fanout.Live.step {h : List (Entry Fanout FanoutOp Unit)} {s s' : Fanout} {op : FanoutOp}
    {maxClientLag : ℕ} (hlive : Live h s)
    (hgap : ∀ seq, op = .noteGap seq → s.stream.client = .absent)
    (hstep : s.step [] maxClientLag op = some (s', ())) : Live (⟨s, op, ()⟩ :: h) s' := by
  obtain ⟨edge, hfed⟩ := hlive.fed
  cases op with
  | push r =>
    cases hstep
    obtain ⟨hasc, hgrows⟩ := hfed.ascending_push (r := r) hlive.ascending
    refine ⟨⟨edge, (hfed.push r).1⟩, hasc, fun l hl hle => ?_⟩
    exact (hlive.follows l hl (hgrows.trans hle)).anti (by simp [Begun])
  | noteGap seq =>
    cases hstep
    have habsent := hgap seq rfl
    obtain ⟨hwritten, hnone⟩ := (hlive.follows _ hlive.ascending prefix_rfl).absent habsent
    have hnone' : ∀ c, ¬ Begun (⟨s, .noteGap seq, ()⟩ :: h) c := by simpa [Begun] using hnone
    refine ⟨⟨_, s.intake.fed_noteGap seq⟩, List.Pairwise.nil, fun l hl _ => ?_⟩
    exact ⟨fun _ => ⟨hwritten, hnone'⟩, by simp [habsent], by simp [habsent],
      fun c hc => absurd hc (hnone' c)⟩
  | client =>
    obtain ⟨stream, hclient, heq⟩ := map_eq_some_iff.mp hstep
    cases heq
    refine ⟨hlive.fed, hlive.ascending, fun l hl hle => ?_⟩
    obtain ⟨post, rfl⟩ := hle
    exact ((hlive.follows _ hl (prefix_append _ _)).step hl
      ⟨edge, [], post, hfed, rfl, by simp, by simp⟩ hclient).1.anti
        (fun _ => Fanout.begun_cons.mp)

/-- A live tail is given what the ring takes after the record that was the newest when it was
first read and not empty, as long as no gap is reported. -/
theorem live_tail_misses_nothing
    (capacity maxClientLag : ℕ)
    {h : List (Entry Fanout FanoutOp Unit)}
    {s : Fanout}
    (hrun : Run (fanout [] maxClientLag) (Fanout.new capacity) h s)
    (hgap : ∀ e ∈ h, ∀ seq, e.call = .noteGap seq → e.pre.stream.client = .absent)
    {e : Entry Fanout FanoutOp Unit}
    {c : Cursor}
    (he : e ∈ h)
    (hpoll : e.call = .client .poll)
    (hwaiting : e.pre.stream.client = .streaming none [])
    (hnewest : e.pre.intake.ring.newest = some c) :
    s.stream.written <+: after s.intake.accepted c ∧
      ∀ cursor queue s',
        s.stream.client = .streaming (some cursor) [] →
        s.stream.step [] maxClientLag s.intake.ring .poll = some s' →
        s'.client = .streaming (some cursor) queue →
        s.stream.written ++ queue = after s.intake.accepted c := by
  have hlive : Fanout.Live h s := by
    refine Run.invariant_of_guard _ Fanout.Live ?_ ?_ hrun hgap
    · exact ⟨⟨none, Intake.fed_new capacity⟩, List.Pairwise.nil, fun l _ _ =>
        (Stream.follows_new l).anti (by simp [Fanout.Begun])⟩
    · exact fun h s op s' o _ hlive hstep hguard => hlive.step hguard hstep
  have hbegun : Fanout.Begun h c := ⟨e, he, .poll, hpoll, .inr ⟨rfl, hwaiting, hnewest⟩⟩
  have hfollows := hlive.follows _ hlive.ascending prefix_rfl
  refine ⟨hfollows.written c hbegun, fun cursor queue s' hclient hread hqueue => ?_⟩
  obtain ⟨edge, hfed⟩ := hlive.fed
  simp only [Stream.step, hclient] at hread
  split at hread <;> cases hread
  · cases hqueue
  next hpass =>
    cases hqueue
    rw [(hfollows.reading cursor [] hclient).1 c hbegun]
    congr 1
    by_cases hbuf : s.intake.ring.buf = []
    · rw [EventRing.recordsAfter, hbuf, hfed.kept hbuf]
    · exact hfed.recordsAfter (show Ascending ([] ++ _) from hlive.ascending) (by simp) (by simp)
        hbuf (by simpa using (not_or.mp hpass).1)

/-- A live tail of a ring that is filled twice. -/
def liveTailRun : List FanoutOp :=
  [ .client (.connect .liveTail),
    .push ⟨1, 0, "", ""⟩,
    .client .poll,
    .push ⟨2, 0, "", ""⟩,
    .client .poll,
    .client .write ]

/-- The first record after the client came names the live tail, and is not given. -/
theorem live_tail_skips_first :
    ∃ h s,
      Run (fanout [] 8) (Fanout.new 8) h s ∧
      h.getLast?.map Entry.call = some (.client (.connect .liveTail)) ∧
      s.stream.written ≠ [] ∧
      ¬ s.stream.written <+: s.intake.accepted :=
  Run.exists_of_decide _ _ liveTailRun _ (by decide)

/-- A record after the one that named the live tail. -/
theorem live_tail_given_second :
    ∃ h s,
      Run (fanout [] 8) (Fanout.new 8) h s ∧
      s.stream.written = [⟨2, 0, "", ""⟩] ∧
      s.stream.written <+: after s.intake.accepted ⟨1, 0⟩ := by
  obtain ⟨h, s, hrun, hwritten, ⟨e, he, hpoll, hwaiting, hnewest⟩, hcalls⟩ :=
    Run.exists_of_decide (fanout [] 8) (Fanout.new 8) liveTailRun
      (fun h s => s.stream.written = [⟨2, 0, "", ""⟩] ∧
        (∃ e ∈ h, e.call = .client .poll ∧ e.pre.stream.client = .streaming none [] ∧
          e.pre.intake.ring.newest = some ⟨1, 0⟩) ∧
        ∀ e ∈ h, (e.call matches .noteGap _) = false) (by decide)
  refine ⟨h, s, hrun, hwritten,
    (live_tail_misses_nothing 8 8 hrun ?_ he hpoll hwaiting hnewest).1⟩
  intro e he seq hcall
  cases hcall ▸ hcalls e he

end LiveTail

section Resuming

variable {log : Log} {i : Intake} {r : EventRecord}

/-- The record that comes next in a ring that is fed with the log. -/
def Intake.expects (log : Log) (i : Intake) (r : EventRecord) : Bool :=
  match i.accepted.getLast?, i.ring.lastEvicted with
  | some last, _ => (after log.records last.cursor).head? = some r
  | none, some edge => (after log.records ⟨edge.seq, U32_MAX⟩).head? = some r
  | none, none => r ∈ log.records

/-- The ring is fed with the log. -/
def Fanout.fedBy (log : Log) (e : Entry Fanout FanoutOp Unit) : Bool :=
  match e.call with
  | .push r => e.pre.intake.expects log r
  | _ => true

/-- A gap is noted only at a number whose group is one record. -/
def Fanout.gapAtSingle (log : Log) (e : Entry Fanout FanoutOp Unit) : Bool :=
  match e.call with
  | .noteGap seq => ∀ r ∈ log.records, r.seq = seq → r.index = 0
  | _ => true

/-- The ring holds a run of the log behind its floor, and the floor is the last of its number. -/
def Intake.OnLog (log : Log) (i : Intake) : Prop :=
  ∃ edge, i.Fed edge ∧
    (∀ e ∈ edge, e.index = 0 ∧ ∀ x ∈ log.records, x.seq = e.seq → x.index = 0) ∧
    (i.accepted ≠ [] → ∃ before post, log.records = before ++ i.accepted ++ post ∧
      ∀ e ∈ edge, ∀ x ∈ before, x.cursor ≤ e)

theorem Intake.OnLog.within (h : i.OnLog log) : i.Within log.records := by
  obtain ⟨edge, hfed, -, hsplit⟩ := h
  by_cases hnil : i.accepted = []
  · exact ⟨edge, [], log.records, hfed, by simp [hnil], by simp, by simp⟩
  · obtain ⟨before, post, hlog, hedge⟩ := hsplit hnil
    exact ⟨edge, before, post, hfed, hlog, fun x hx => log.index_le x (by simp [hlog, hx]), hedge⟩

theorem Intake.OnLog.push (h : i.OnLog log) (hnext : i.expects log r = true) :
    (i.push r).OnLog log := by
  obtain ⟨edge, hfed, hsingle, hsplit⟩ := h
  refine ⟨edge, (hfed.push r).1, hsingle, fun _ => ?_⟩
  rw [Intake.expects] at hnext
  cases hlast : i.accepted.getLast? with
  | some last =>
    have hne := ne_nil_of_mem (mem_of_getLast? hlast)
    obtain ⟨before, post, hlog, hedge⟩ := hsplit hne
    rcases (hfed.push r).2 with ⟨-, htaken⟩ | ⟨-, hsame⟩
    · -- what is after the last record is what is behind the run
      have hrest : after log.records last.cursor = post := by
        obtain ⟨run, hrun⟩ := List.getLast?_eq_some_iff.mp hlast
        have hsplit : log.records = (before ++ run) ++ last :: post := by simp [hlog, hrun]
        have hasc := log.ascending
        rw [hsplit] at hasc ⊢
        exact hasc.after_self
      simp only [hlast, hrest, decide_eq_true_eq] at hnext
      obtain ⟨post, rfl⟩ := List.head?_eq_some_iff.mp hnext
      exact ⟨before, post, by simp [htaken, hlog], hedge⟩
    · exact ⟨before, post, by rw [hsame, hlog], hedge⟩
  | none =>
    have hnil := List.getLast?_eq_none_iff.mp hlast
    obtain ⟨gone, haccepted, hevicted⟩ := hfed.window
    obtain ⟨rfl, -⟩ := append_eq_nil_iff.mp (haccepted.symm.trans hnil)
    have htaken : (i.push r).accepted = [r] := by
      rcases (hfed.push r).2 with ⟨-, htaken⟩ | ⟨⟨last, hmem, -⟩, -⟩
      · rw [htaken, hnil, nil_append]
      · cases hlast.symm.trans hmem
    simp only [hlast, hevicted, List.getLast?_nil, map_none, none_or] at hnext
    rw [htaken]
    cases edge with
    | none =>
      obtain ⟨before, post, hlog⟩ := append_of_mem (of_decide_eq_true hnext)
      exact ⟨before, post, by simp [hlog], by simp⟩
    | some e =>
      obtain ⟨hindex, hone⟩ := hsingle e rfl
      obtain ⟨u, hu, hbefore⟩ := log.ascending.after_split ⟨e.seq, U32_MAX⟩
      obtain ⟨post, hpost⟩ := List.head?_eq_some_iff.mp (of_decide_eq_true hnext)
      refine ⟨u, post, by rw [← hu, hpost]; simp, fun e' he' x hx => ?_⟩
      cases he'
      -- a record up to the number of the gap is before it or is the one of that number
      have hle := Cursor.seq_le (hbefore x hx)
      have hx0 := hone x (by rw [← hu]; simp [hx])
      by_contra hlt
      rw [not_le, Cursor.lt_iff] at hlt
      simp only [EventRecord.cursor] at hle hlt
      omega

variable {h : List (Entry Fanout FanoutOp Unit)} {s s' : Fanout} {maxClientLag : ℕ}

/-- The ring is on the log, and the client follows the log from where it has begun. -/
def Fanout.Resumed (log : Log) (h : List (Entry Fanout FanoutOp Unit)) (s : Fanout) : Prop :=
  s.intake.OnLog log ∧ s.stream.Follows log.records (Fanout.Begun h)

theorem Fanout.Resumed.step {op : FanoutOp} (hinv : Resumed log h s)
    (hfeed : fedBy log ⟨s, op, ()⟩ = true ∧ gapAtSingle log ⟨s, op, ()⟩ = true)
    (hstep : s.step [] maxClientLag op = some (s', ())) : Resumed log (⟨s, op, ()⟩ :: h) s' := by
  obtain ⟨honlog, hfollows⟩ := hinv
  obtain ⟨hfed, hsingle⟩ := hfeed
  cases op with
  | push =>
    cases hstep
    exact ⟨honlog.push hfed, hfollows.anti (by simp [Begun])⟩
  | noteGap seq =>
    cases hstep
    refine ⟨⟨_, s.intake.fed_noteGap seq, fun e he => ?_, fun hne => absurd rfl hne⟩,
      hfollows.anti (by simp [Begun])⟩
    cases he
    exact ⟨rfl, of_decide_eq_true hsingle⟩
  | client =>
    obtain ⟨stream, hclient, heq⟩ := map_eq_some_iff.mp hstep
    cases heq
    exact ⟨honlog, (hfollows.step log.ascending honlog.within hclient).1.anti
      (fun _ => begun_cons.mp)⟩

theorem Fanout.resumed_of_run {capacity : ℕ}
    (hrun : Run (fanout [] maxClientLag) (Fanout.new capacity) h s)
    (hfeed : ∀ e ∈ h, fedBy log e = true ∧ gapAtSingle log e = true) : Resumed log h s := by
  refine Run.invariant_of_guard _ (Resumed log) ?_ ?_ hrun hfeed
  · exact ⟨⟨none, Intake.fed_new capacity, by simp, fun hne => absurd rfl hne⟩,
      (Stream.follows_new _).anti (by simp [Begun])⟩
  · exact fun h s op s' o _ hinv hstep hguard => hinv.step hguard hstep

end Resuming

/-- A client is given the log behind the cursor that it asked for without a hole, or its stream
is ended. -/
theorem resumed_stream_has_no_hole
    (log : Log)
    (capacity maxClientLag : ℕ)
    {h : List (Entry Fanout FanoutOp Unit)}
    {s : Fanout}
    (hrun : Run (fanout [] maxClientLag) (Fanout.new capacity) h s)
    (hfeed : ∀ e ∈ h, Fanout.fedBy log e = true ∧ Fanout.gapAtSingle log e = true) :
    (∀ e ∈ h, ∀ c, e.call = .client (.connect (.after c)) →
      s.stream.written <+: after log.records c) ∧
    ∀ cursor s',
      s.stream.client = .streaming (some cursor) [] →
      s.stream.step [] maxClientLag s.intake.ring .poll = some s' →
      (∃ x ∈ log.records, ∃ y ∈ s.intake.ring.buf,
        cursor < x.cursor ∧ x.cursor < y.cursor ∧ x ∉ s.intake.ring.buf) →
      s'.client = .ended .evicted := by
  obtain ⟨honlog, hfollows⟩ := Fanout.resumed_of_run hrun hfeed
  refine ⟨fun e he c hcall => hfollows.written c ⟨e, he, _, hcall, .inl rfl⟩,
    fun cursor s' hclient hpoll hmissed => ?_⟩
  obtain ⟨x, hx, y, hy, hcx, hxy, hgone⟩ := hmissed
  simp only [Stream.step, hclient] at hpoll
  split at hpoll <;> cases hpoll
  · rfl
  next hpass =>
    obtain ⟨rest, hrest⟩ := honlog.within.reads log.ascending (c := cursor)
      (by simpa using (not_or.mp hpass).1)
    have hread : y ∈ s.intake.ring.recordsAfter cursor :=
      mem_filter.mpr ⟨hy, decide_eq_true (hcx.trans hxy)⟩
    have hlater : x ∈ s.intake.ring.recordsAfter cursor ++ rest :=
      hrest ▸ mem_filter.mpr ⟨hx, decide_eq_true hcx⟩
    have hasc : Ascending (after log.records cursor) := log.ascending.sublist filter_sublist
    rw [← hrest] at hasc
    rcases mem_append.mp hlater with hmem | hmem
    · exact absurd (mem_of_mem_filter hmem) hgone
    · exact absurd ((pairwise_append.mp hasc).2.2 y hread x hmem) (lt_asymm hxy)

/-- A gap at a number with two records: the client at the first is not told of the second. -/
theorem gap_within_group_skips :
    ∃ h s,
      Run (fanout [] 8) (Fanout.new 8) h s ∧
      (∀ e ∈ h, Fanout.fedBy twoGroups e = true) ∧
      (∃ e ∈ h, e.call = .client (.connect (.after ⟨2, 0⟩))) ∧
      ¬ s.stream.written <+: after twoGroups.records ⟨2, 0⟩ :=
  Run.exists_of_decide _ _ [.client (.connect (.after ⟨2, 0⟩)), .noteGap 2,
    .push ⟨3, 0, "", ""⟩, .client .poll, .client .write] _ (by decide)

/-- A gap at a number with one record. -/
theorem resumed_stream_after_gap :
    ∃ h s,
      Run (fanout [] 8) (Fanout.new 8) h s ∧
      s.stream.written = [⟨2, 0, "", ""⟩] ∧
      s.stream.written <+: after twoGroups.records ⟨1, 1⟩ := by
  obtain ⟨h, s, hrun, hwritten, ⟨e, he, hcall⟩, hfeed⟩ := Run.exists_of_decide (fanout [] 8)
    (Fanout.new 8) [.noteGap 3, .noteGap 0, .push ⟨1, 0, "", ""⟩, .push ⟨1, 1, "", ""⟩,
      .client (.connect (.after ⟨1, 1⟩)), .push ⟨2, 0, "", ""⟩, .client .poll, .client .write]
    (fun h s => s.stream.written = [⟨2, 0, "", ""⟩] ∧
      (∃ e ∈ h, e.call = .client (.connect (.after ⟨1, 1⟩))) ∧
      ∀ e ∈ h, Fanout.fedBy twoGroups e = true ∧ Fanout.gapAtSingle twoGroups e = true)
    (by decide)
  exact ⟨h, s, hrun, hwritten,
    (resumed_stream_has_no_hole twoGroups 8 8 hrun hfeed).1 e he _ hcall⟩

end Knomosis.Gateway
