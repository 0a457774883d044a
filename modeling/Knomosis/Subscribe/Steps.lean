import Knomosis.Subscribe.Server

/-!
# What a step of the event server does to a subscriber

A subscriber is offered the batches of the log in order, one number after the other,
from the number that is next when it registers.  Every step of the server leaves a
subscriber alone, offers it the batch that is next for it, tells it of the shutdown,
creates it, or is a step of its own thread.
-/

namespace Knomosis.Subscribe

open Lib Smt List Option

namespace Server

/-- The number of the batch that a subscriber will be offered next. -/
def nextOffer (s : Server) (id : ℕ) : ℕ :=
  match s.extractor with
  | .poll => s.nextSeq
  | .pushed _ => s.nextSeq - 1
  | .offer _ todo => if id ∈ todo then s.nextSeq - 1 else s.nextSeq

/-- The batch that the extractor is about to offer is the last one it read. -/
def ExtractorSound (log : ℕ → List Bytes) (s : Server) : Prop :=
  match s.extractor with
  | .poll => True
  | .pushed events => 1 < s.nextSeq ∧ events = batch log (s.nextSeq - 1)
  | .offer events todo =>
    1 < s.nextSeq ∧ events = batch log (s.nextSeq - 1) ∧ todo.Nodup ∧ ∀ id ∈ todo, id < s.nextId

/-- What holds between the steps of the server. -/
structure Sound (log : ℕ → List Bytes) (s : Server) : Prop where
  seq_pos : 0 < s.nextSeq
  extractor : s.ExtractorSound log
  cache : s.cache.Holds (span (batch log) 1 s.nextSeq)
  pushed : s.cache.lastPushedSeq < s.nextSeq
  nodup : s.registry.Nodup
  registered : ∀ id ∈ s.registry, id < s.nextId
  known : ∀ id sub, s.subscribers id = some sub → id < s.nextId
  present : ∀ id sub, s.subscribers id = some sub → sub.isGone = false → id ∈ s.registry

/-- What a step does to a subscriber. -/
inductive Effect (cfg : Config) (log : ℕ → List Bytes) (s s' : Server) (op : ServerOp) (id : ℕ)
    (sub' : Subscriber) : Prop
  | same
      (hsub : s.subscribers id = some sub')
      (hle : s.nextOffer id ≤ s'.nextOffer id)
      (hoffer : (∀ seq, log seq ≠ []) → sub'.isGone = false → s'.nextOffer id = s.nextOffer id)
  | offered (sub : Subscriber)
      (hsub : s.subscribers id = some sub)
      (hop : op = .offer)
      (hnext : ∃ events todo, s.extractor = .offer events (id :: todo))
      (heq : sub' = sub.tryEnqueue cfg (batch log (s.nextOffer id)))
      (hoffer : s'.nextOffer id = s.nextOffer id + 1)
  | told (sub : Subscriber)
      (hsub : s.subscribers id = some sub)
      (heq : sub' = sub.requestShutdown cfg)
      (hoffer : s'.nextOffer id = s.nextOffer id)
  | created (resumeFrom : ℕ)
      (hop : op = .subscribe resumeFrom)
      (heq : sub' = .new resumeFrom)
      (hid : id = s.nextId)
      (hoffer : s'.nextOffer id = s.nextOffer id)
  | moved (sub : Subscriber) (socket : Socket)
      (hsub : s.subscribers id = some sub)
      (hfree : sub.phase = .range → s.extractor = .poll)
      (hstep : sub.step s.cache socket = some sub')
      (hoffer : s'.nextOffer id = s.nextOffer id)

section Lookups

variable {s : Server} {id id' : ℕ} {sub : Subscriber}

@[simp] theorem setSubscriber_self : (s.setSubscriber id sub).subscribers id = some sub :=
  Function.update_self id _ _

theorem setSubscriber_of_ne (h : id' ≠ id) :
    (s.setSubscriber id sub).subscribers id' = s.subscribers id' :=
  Function.update_of_ne h _ _

theorem setSubscriber_cases {sub' : Subscriber}
    (h : (s.setSubscriber id sub).subscribers id' = some sub') :
    id' = id ∧ sub' = sub ∨ id' ≠ id ∧ s.subscribers id' = some sub' := by
  by_cases hid : id' = id
  · subst hid
    exact .inl ⟨rfl, (Option.some.inj (setSubscriber_self.symm.trans h)).symm⟩
  · exact .inr ⟨hid, setSubscriber_of_ne hid ▸ h⟩

end Lookups

section Subscribers

variable {cfg : Config} {sub sub' : Subscriber}

theorem isGone_tryEnqueue (events : List CachedEvent) :
    (sub.tryEnqueue cfg events).isGone = sub.isGone := by
  unfold Subscriber.tryEnqueue
  split
  · rfl
  split
  · rfl
  split
  · rfl
  · dsimp only
    split <;> rfl

theorem isGone_requestShutdown : (sub.requestShutdown cfg).isGone = sub.isGone := by
  unfold Subscriber.requestShutdown
  split
  · rfl
  dsimp only
  split
  · rfl
  split <;> rfl

theorem here_of_step {cache : EventCache} {socket : Socket}
    (hstep : sub.step cache socket = some sub') (hhere : sub'.isGone = false) :
    sub.isGone = false ∧ sub.unregisters = false := by
  unfold Subscriber.step at hstep
  unfold Subscriber.isGone Subscriber.unregisters
  split at hstep <;> rename_i hphase <;> simp only [hphase, and_self]
  · cases hstep
    simp [Subscriber.isGone, Subscriber.goTo] at hhere
  · cases hstep

end Subscribers

section Soundness

variable {cfg : Config} {log : ℕ → List Bytes} {s s' : Server} {op : ServerOp} {id : ℕ}

theorem sound_start : (start cfg).Sound log where
  seq_pos := Nat.one_pos
  extractor := trivial
  cache := by
    have hempty : span (batch log) 1 (start cfg).nextSeq = [] := span_self
    rw [hempty]
    exact EventCache.holds_new cfg.keepHistory
  pushed := Nat.one_pos
  nodup := nodup_nil
  registered := nofun
  known := fun _ _ h => by cases h
  present := fun _ _ h => by cases h

theorem seq_of_mem_batch {seq : ℕ} {e : CachedEvent} (he : e ∈ batch log seq) : e.seq = seq := by
  obtain ⟨payload, -, rfl⟩ := mem_map.mp he
  rfl

theorem Sound.pushAll (h : s.Sound log) :
    ∃ cache, s.cache.pushAll (batch log s.nextSeq) = .ok cache ∧
      cache.Holds (span (batch log) 1 (s.nextSeq + 1)) ∧ cache.lastPushedSeq ≤ s.nextSeq := by
  rw [span_snoc h.seq_pos]
  exact h.cache.pushAll h.seq_pos.ne' h.pushed.le (fun e he => seq_of_mem_batch he)

theorem extract_eq (h : s.Sound log) :
    ∃ cache, cache.Holds (span (batch log) 1 (s.nextSeq + 1)) ∧ cache.lastPushedSeq ≤ s.nextSeq ∧
      s.extract log = { s with
        cache
        nextSeq := s.nextSeq + 1
        extractor :=
          if batch log s.nextSeq = [] then .poll else .pushed (batch log s.nextSeq) } := by
  obtain ⟨cache, hpush, hholds, hpushed⟩ := h.pushAll
  refine ⟨cache, hholds, hpushed, ?_⟩
  rw [extract, hpush]

section Effects

variable {sub' : Subscriber} {events : List CachedEvent}

theorem effect_of_extract (h : s.Sound log) (hpoll : s.extractor = .poll)
    (hsub : (s.extract log).subscribers id = some sub') :
    Effect cfg log s (s.extract log) .extract id sub' := by
  obtain ⟨cache, -, -, heq⟩ := extract_eq h
  rw [heq] at hsub ⊢
  refine .same hsub ?_ ?_
  · by_cases hempty : batch log s.nextSeq = [] <;> simp [nextOffer, hpoll, hempty]
  · intro hlog _
    have hne : batch log s.nextSeq ≠ [] := by simpa [batch] using hlog s.nextSeq
    simp [nextOffer, hpoll, hne]

theorem effect_of_snapshot (h : s.Sound log) (hpushed : s.extractor = .pushed events)
    (hsub : s.subscribers id = some sub') :
    Effect cfg log s { s with extractor := .offer events s.registry } .snapshot id sub' := by
  refine .same hsub ?_ ?_
  · simp only [nextOffer, hpushed]
    split <;> omega
  · intro _ hhere
    simp [nextOffer, hpushed, h.present id sub' hsub hhere]

/-- The batch is offered to the first who waits for it. -/
theorem effect_of_offer {first : ℕ} {todo : List ℕ} (h : s.Sound log)
    (hoffer : s.extractor = .offer events (first :: todo))
    (hstep : (server cfg log).step s .offer = some (s', ()))
    (hsub : s'.subscribers id = some sub') : Effect cfg log s s' .offer id sub' := by
  have hext := h.extractor
  simp only [ExtractorSound, hoffer] at hext
  obtain ⟨hpos, rfl, hnodup, -⟩ := hext
  simp only [server, hoffer] at hstep
  by_cases hid : id = first
  · subst hid
    have hnext : s.nextOffer id = s.nextSeq - 1 := by simp [nextOffer, hoffer]
    split at hstep <;> cases hstep
    next sub hbefore =>
      rw [setSubscriber_self] at hsub
      refine .offered sub hbefore rfl ⟨_, _, hoffer⟩ ?_ ?_
      · rw [hnext]
        exact (Option.some.inj hsub).symm
      · rw [hnext]
        simp only [nextOffer, setSubscriber, (nodup_cons.mp hnodup).1, if_false]
        omega
    next hnone =>
      rw [hnone] at hsub
      cases hsub
  · have hother : { s with extractor := .offer (batch log (s.nextSeq - 1)) todo }.nextOffer id =
        s.nextOffer id := by
      simp [nextOffer, hoffer, hid]
    split at hstep <;> cases hstep
    · rw [setSubscriber_of_ne hid] at hsub
      exact .same hsub hother.ge (fun _ _ => hother)
    · exact .same hsub hother.ge (fun _ _ => hother)

theorem effect_of_subscribe {resumeFrom : ℕ}
    (hsub : (s.subscribe cfg resumeFrom).subscribers id = some sub') :
    Effect cfg log s (s.subscribe cfg resumeFrom) (.subscribe resumeFrom) id sub' := by
  unfold subscribe at hsub ⊢
  split at hsub
  next hfull =>
    rw [if_pos hfull]
    exact .same hsub le_rfl (fun _ _ => rfl)
  next hroom =>
    rw [if_neg hroom]
    rcases setSubscriber_cases hsub with ⟨hid, heq⟩ | ⟨-, hold⟩
    · exact .created resumeFrom rfl heq hid rfl
    · exact .same hold le_rfl (fun _ _ => rfl)

theorem effect_of_dispatch {target : ℕ} {socket : Socket}
    (hdispatch : s.dispatch target socket = some s') (hsub : s'.subscribers id = some sub') :
    Effect cfg log s s' (.dispatch target socket) id sub' := by
  unfold dispatch at hdispatch
  split at hdispatch
  · cases hdispatch
  next sub hbefore =>
    split at hdispatch
    · cases hdispatch
    next hfree =>
      obtain ⟨moved, hmoved, rfl⟩ := map_eq_some_iff.mp hdispatch
      rcases setSubscriber_cases hsub with ⟨rfl, rfl⟩ | ⟨-, hold⟩
      · refine .moved sub socket hbefore (fun hrange => ?_) hmoved rfl
        by_contra hne
        exact hfree ⟨hrange, hne⟩
      · exact .same hold le_rfl (fun _ _ => rfl)

theorem effect_of_step (h : s.Sound log) (hstep : (server cfg log).step s op = some (s', ()))
    (hsub : s'.subscribers id = some sub') : Effect cfg log s s' op id sub' := by
  cases op with
  | extract =>
    simp only [server, ite_none_right_eq_some, Option.some.injEq, Prod.mk.injEq, and_true] at hstep
    obtain ⟨⟨hpoll, -⟩, rfl⟩ := hstep
    exact effect_of_extract h hpoll hsub
  | snapshot =>
    simp only [server] at hstep
    split at hstep <;> cases hstep
    exact effect_of_snapshot h ‹_› hsub
  | offer =>
    have hstep' := hstep
    simp only [server] at hstep'
    split at hstep'
    next hoffer => exact effect_of_offer h hoffer hstep hsub
    · cases hstep'
  | release =>
    simp only [server] at hstep
    split at hstep <;> cases hstep
    next events hoffer =>
      have hsame : { s with extractor := .poll }.nextOffer id = s.nextOffer id := by
        simp [nextOffer, hoffer]
      exact .same hsub hsame.ge (fun _ _ => hsame)
  | halt =>
    cases hstep
    exact .same hsub le_rfl (fun _ _ => rfl)
  | requestShutdown target =>
    simp only [server] at hstep
    split at hstep
    next sub hbefore =>
      split_ifs at hstep
      cases hstep
      rcases setSubscriber_cases hsub with ⟨rfl, heq⟩ | ⟨-, hold⟩
      · exact .told sub hbefore heq rfl
      · exact .same hold le_rfl (fun _ _ => rfl)
    · cases hstep
  | subscribe =>
    simp only [server, ite_none_right_eq_some, Option.some.injEq, Prod.mk.injEq, and_true] at hstep
    obtain ⟨-, rfl⟩ := hstep
    exact effect_of_subscribe hsub
  | dispatch =>
    simp only [server, map_eq_some_iff, Prod.mk.injEq, and_true] at hstep
    obtain ⟨s'', hdispatch, rfl⟩ := hstep
    exact effect_of_dispatch hdispatch hsub

end Effects

section

variable (h : s.Sound log)
include h

theorem Sound.setSubscriber {sub sub' : Subscriber}
    (hsub : s.subscribers id = some sub) (hhere : sub'.isGone = false → sub.isGone = false) :
    (s.setSubscriber id sub').Sound log where
  seq_pos := h.seq_pos
  extractor := h.extractor
  cache := h.cache
  pushed := h.pushed
  nodup := h.nodup
  registered := h.registered
  known := by
    intro id' sub'' hsub''
    rcases setSubscriber_cases hsub'' with ⟨rfl, -⟩ | ⟨-, hold⟩
    · exact h.known id' sub hsub
    · exact h.known id' sub'' hold
  present := by
    intro id' sub'' hsub'' hgone
    rcases setSubscriber_cases hsub'' with ⟨rfl, rfl⟩ | ⟨-, hold⟩
    · exact h.present id' sub hsub (hhere hgone)
    · exact h.present id' sub'' hold hgone

theorem Sound.setExtractor {extractor : Extractor}
    (hext : { s with extractor }.ExtractorSound log) : { s with extractor }.Sound log where
  seq_pos := h.seq_pos
  extractor := hext
  cache := h.cache
  pushed := h.pushed
  nodup := h.nodup
  registered := h.registered
  known := h.known
  present := h.present

theorem Sound.extract : (s.extract log).Sound log := by
  obtain ⟨cache, hholds, hpushed, heq⟩ := extract_eq h
  rw [heq]
  refine ⟨Nat.succ_pos _, ?_, hholds, Nat.lt_succ_of_le hpushed, h.nodup, h.registered, h.known,
    h.present⟩
  have hpos := h.seq_pos
  by_cases hempty : batch log s.nextSeq = []
  · simp [ExtractorSound, hempty]
  · simpa [ExtractorSound, hempty] using hpos

theorem Sound.subscribe (resumeFrom : ℕ) : (s.subscribe cfg resumeFrom).Sound log := by
  have hext := h.extractor
  unfold Server.subscribe
  split
  · exact h
  refine ⟨h.seq_pos, ?_, h.cache, h.pushed, ?_, ?_, ?_, ?_⟩
  · unfold ExtractorSound at hext ⊢
    simp only [Server.setSubscriber]
    cases hcase : s.extractor with
    | poll => trivial
    | pushed => rwa [hcase] at hext
    | offer =>
      rw [hcase] at hext
      obtain ⟨hpos, hevents, hnodup, htodo⟩ := hext
      exact ⟨hpos, hevents, hnodup, fun id hid => (htodo id hid).trans (Nat.lt_succ_self _)⟩
  · refine nodup_append.mpr ⟨h.nodup, nodup_singleton _, ?_⟩
    rintro a ha b hb rfl
    exact absurd (h.registered a ha) (by simp [mem_singleton.mp hb])
  · intro id hid
    rcases mem_append.mp hid with hold | hnew
    · exact (h.registered id hold).trans (Nat.lt_succ_self _)
    · rw [mem_singleton.mp hnew]
      exact Nat.lt_succ_self _
  · intro id sub hsub
    rcases setSubscriber_cases hsub with ⟨rfl, -⟩ | ⟨-, hold⟩
    · exact Nat.lt_succ_self _
    · exact (h.known id sub hold).trans (Nat.lt_succ_self _)
  · intro id sub hsub hgone
    rcases setSubscriber_cases hsub with ⟨rfl, -⟩ | ⟨-, hold⟩
    · simp
    · exact mem_append_left _ (h.present id sub hold hgone)

theorem Sound.dispatch {socket : Socket}
    (hdispatch : s.dispatch id socket = some s') : s'.Sound log := by
  unfold Server.dispatch at hdispatch
  split at hdispatch
  · cases hdispatch
  next sub hsub =>
    split at hdispatch
    · cases hdispatch
    obtain ⟨sub', hstep, rfl⟩ := map_eq_some_iff.mp hdispatch
    have hset := h.setSubscriber hsub (fun hhere => (here_of_step hstep hhere).1)
    refine ⟨hset.seq_pos, hset.extractor, hset.cache, hset.pushed, ?_, ?_, hset.known, ?_⟩
    · dsimp only
      split
      · exact h.nodup.filter _
      · exact h.nodup
    · dsimp only
      intro id' hid'
      split at hid'
      · exact h.registered id' (mem_of_mem_filter hid')
      · exact h.registered id' hid'
    · intro id' sub'' hsub'' hgone
      have hmem := hset.present id' sub'' hsub'' hgone
      dsimp only
      split
      next hleaves =>
        refine mem_filter.mpr ⟨hmem, ?_⟩
        by_contra hsame
        obtain rfl : id' = id := by simpa using hsame
        cases setSubscriber_self.symm.trans hsub''
        rw [(here_of_step hstep hgone).2] at hleaves
        cases hleaves
      · exact hmem

theorem Sound.step (hstep : (server cfg log).step s op = some (s', ())) : s'.Sound log := by
  have hext := h.extractor
  unfold ExtractorSound at hext
  cases op with
  | extract =>
    simp only [server, ite_none_right_eq_some, Option.some.injEq, Prod.mk.injEq, and_true] at hstep
    obtain ⟨-, rfl⟩ := hstep
    exact h.extract
  | snapshot =>
    simp only [server] at hstep
    split at hstep <;> cases hstep
    next events hpushed =>
      simp only [hpushed] at hext
      exact h.setExtractor ⟨hext.1, hext.2, h.nodup, h.registered⟩
  | offer =>
    simp only [server] at hstep
    split at hstep
    next events first todo hoffer =>
      simp only [hoffer] at hext
      obtain ⟨hpos, hevents, hnodup, htodo⟩ := hext
      have hnext : { s with extractor := .offer events todo }.Sound log :=
        h.setExtractor ⟨hpos, hevents, hnodup.of_cons, fun id hid => htodo id (.tail _ hid)⟩
      split at hstep <;> cases hstep
      next sub hsub =>
        exact hnext.setSubscriber hsub (fun hhere => (isGone_tryEnqueue events).symm.trans hhere)
      · exact hnext
    · cases hstep
  | release =>
    simp only [server] at hstep
    split at hstep <;> cases hstep
    exact h.setExtractor trivial
  | halt =>
    cases hstep
    exact ⟨h.seq_pos, h.extractor, h.cache, h.pushed, h.nodup, h.registered, h.known, h.present⟩
  | requestShutdown =>
    simp only [server] at hstep
    split at hstep
    next sub hsub =>
      split_ifs at hstep
      cases hstep
      exact h.setSubscriber hsub (fun hhere => isGone_requestShutdown.symm.trans hhere)
    · cases hstep
  | subscribe resumeFrom =>
    simp only [server, ite_none_right_eq_some, Option.some.injEq, Prod.mk.injEq, and_true] at hstep
    obtain ⟨-, rfl⟩ := hstep
    exact h.subscribe resumeFrom
  | dispatch =>
    simp only [server, map_eq_some_iff, Prod.mk.injEq, and_true] at hstep
    obtain ⟨s'', hdispatch, rfl⟩ := hstep
    exact h.dispatch hdispatch

end

theorem sound_of_run {h : List (Entry Server ServerOp Unit)}
    (hrun : Run (server cfg log) (start cfg) h s) : s.Sound log :=
  hrun.invariant sound_start (fun _ _ _ _ _ _ hsound hstep => hsound.step hstep)

end Soundness

end Server

end Knomosis.Subscribe
