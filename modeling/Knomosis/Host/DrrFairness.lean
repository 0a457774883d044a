import Knomosis.Host.DrrRuns

/-!
# Fairness of the scheduler

Both tiers take turns, whatever requests arrive in between.  The parts of a run in
which a connection waits and is not served are those between two services of a
connection that stays backlogged, and between its arrival and its first service.

The second half compares two runs that differ in the hints of the requests only.
The outer tier sees of a connection how much waits for it, and nothing of how the
hints divide it up.
-/

namespace Knomosis.Host
namespace DrrState

open Lib List

variable {R : Type}

def servedLeaf (e : DrrEntry R) : Option (ConnId × SignerHint) := (servedOf e).head?.map Prod.fst

def servedConn (e : DrrEntry R) : Option ConnId := (servedLeaf e).map Prod.fst

/-- Something waits for a connection. -/
def Backlogged (s : DrrState R) (conn : ConnId) : Prop := ∃ signer, s.leaf conn signer ≠ []

section Entries

variable (s : DrrState R)

@[simp] theorem servedLeaf_enqueue (op : DrrOp R) (result : Except R Unit) :
    servedLeaf ⟨s, op, .enqueued result⟩ = none := by
  simp [servedLeaf]

@[simp] theorem servedLeaf_idle (op : DrrOp R) : servedLeaf ⟨s, op, .picked none⟩ = none := by
  simp [servedLeaf]

variable {s}

theorem Front.servedLeaf_eq {conn : ConnId} {rest : List ConnId} {signer : SignerHint}
    {hints : List SignerHint} {req : R} {deque : List R}
    (hfront : s.Front conn rest signer hints req deque) :
    servedLeaf ⟨s, .pick, .picked (some req)⟩ = some (conn, signer) := by
  simp [servedLeaf, hfront.servedOf_eq]

theorem Sound.mem_hints_iff (hsound : s.Sound) (conn : ConnId) (signer : SignerHint) :
    signer ∈ (s.bucket conn).active ↔ s.leaf conn signer ≠ [] := by
  rw [(hsound.bucket conn).mem_active, (hsound.bucket conn).mem_flows_iff, depth_fifo]
  exact length_eq_zero_iff.not

theorem Sound.backlogged_iff (hsound : s.Sound) (conn : ConnId) :
    s.Backlogged conn ↔ conn ∈ s.outer.active := by
  have hactive : conn ∈ s.outer.active ↔ (s.bucket conn).active ≠ [] := by
    rw [hsound.mem_active, Tier.Sound.mem_flows_iff hsound, depth_tier]
    exact (hsound.bucket conn).totalDepth_eq_zero_iff.not
  rw [hactive]
  constructor
  · rintro ⟨signer, hleaf⟩
    exact ne_nil_of_mem ((hsound.mem_hints_iff conn signer).mpr hleaf)
  · intro hne
    obtain ⟨signer, hmem⟩ := exists_mem_of_ne_nil _ hne
    exact ⟨signer, (hsound.mem_hints_iff conn signer).mp hmem⟩

end Entries

section Fairness

variable {s s' : DrrState R} {op : DrrOp R} {out : DrrOut R}

theorem Effect.advance_outer (heffect : s.Effect op s' out) (hsound : s.Sound) :
    Advance s.outer.active (servedConn ⟨s, op, out⟩) s'.outer.active := by
  cases heffect with
  | refused =>
    rw [servedConn, servedLeaf_enqueue, outer_refuse]
    exact .stay _
  | accepted =>
    rw [servedConn, servedLeaf_enqueue]
    exact Tier.advance_joined hsound
  | idle =>
    rw [servedConn, servedLeaf_idle]
    exact .stay _
  | served _ _ _ _ _ _ hfront =>
    rw [servedConn, hfront.servedLeaf_eq]
    exact Tier.advance_turned hfront.outer

def servedHint (conn : ConnId) (e : DrrEntry R) : Option SignerHint :=
  (servedLeaf e).bind fun leaf => if leaf.1 = conn then some leaf.2 else none

theorem Effect.advance_inner (heffect : s.Effect op s' out) (hsound : s.Sound) (conn : ConnId) :
    Advance (s.bucket conn).active (servedHint conn ⟨s, op, out⟩) (s'.bucket conn).active := by
  cases heffect with
  | refused =>
    rw [servedHint, servedLeaf_enqueue, bucket, bucket, outer_refuse]
    exact .stay _
  | accepted =>
    rw [servedHint, servedLeaf_enqueue, bucket_accept]
    split
    case isTrue heq =>
      subst heq
      exact Tier.advance_joined (hsound.bucket conn)
    · exact .stay _
  | idle =>
    rw [servedHint, servedLeaf_idle]
    exact .stay _
  | served c _ _ _ _ _ hfront =>
    rw [servedHint, hfront.servedLeaf_eq, hfront.bucket_served hsound]
    by_cases heq : conn = c
    · subst heq
      simp only [if_true, Option.bind_some]
      exact Tier.advance_turned hfront.inner
    · simp only [heq, Ne.symm heq, if_false, Option.bind_some]
      exact .stay _

/-- A part of a run moves every line on. -/
theorem run_advances {K : Type} (line : DrrState R → List K) (turnOf : DrrEntry R → Option K)
    (hadvance : ∀ {s s' : DrrState R} {op out}, s.Effect op s' out → s.Sound →
      Advance (line s) (turnOf ⟨s, op, out⟩) (line s'))
    {s s' : DrrState R} {mid : List (DrrEntry R)} (hsound : s.Sound) (hmid : Run (drr R) s mid s') :
    Advances (line s) (mid.map turnOf) (line s') ∧ s'.Sound := by
  induction hmid with
  | nil => exact ⟨.nil _, hsound⟩
  | snoc _ hstep ih =>
    have heffect := ih.2.effect hstep
    exact ⟨.snoc ih.1 (hadvance heffect ih.2), heffect.sound ih.2⟩

theorem count_map_some
    {K : Type} [DecidableEq K] (turnOf : DrrEntry R → Option K) (mid : List (DrrEntry R)) (k : K) :
    (mid.map turnOf).count (some k) = mid.countP (fun e => turnOf e = some k) := by
  rw [List.count, countP_map]
  exact countP_congr fun e _ => by simp

/--
Fairness at both tiers.  In any part of a run that a connection enters with a
backlog and in which it is not served, every other connection is served at most
once; likewise for the hints of one connection.
-/
theorem drr_fair (caps : Caps) {h mid : List (DrrEntry R)} {s s' : DrrState R}
    (hrun : Run (drr R) (new caps) h s) (hmid : Run (drr R) s mid s') :
    (∀ conn, s.Backlogged conn → (∀ e ∈ mid, servedConn e ≠ some conn) →
      ∀ other, mid.countP (fun e => servedConn e = some other) ≤ 1) ∧
    (∀ conn signer, s.leaf conn signer ≠ [] → (∀ e ∈ mid, servedLeaf e ≠ some (conn, signer)) →
      ∀ other, mid.countP (fun e => servedLeaf e = some (conn, other)) ≤ 1) := by
  have hsound := run_sound hrun
  constructor
  · intro conn hbacklog hnot other
    have hsteps := (run_advances _ servedConn (fun heff hs => heff.advance_outer hs) hsound hmid).1
    have hline : some conn ∉ mid.map servedConn := by
      intro hmem
      obtain ⟨e, he, heq⟩ := mem_map.mp hmem
      exact hnot e he heq
    rw [← count_map_some]
    exact hsteps.count_le_one hsound.nodup ((hsound.backlogged_iff conn).mp hbacklog) hline other
  · intro conn signer hleaf hnot other
    have hsteps := (run_advances _ (servedHint conn)
      (fun heff hs => heff.advance_inner hs conn) hsound hmid).1
    have hhint : ∀ (e : DrrEntry R) hint,
        servedHint conn e = some hint ↔ servedLeaf e = some (conn, hint) := by
      intro e hint
      rw [servedHint]
      rcases servedLeaf e with - | ⟨c, hint'⟩
      · simp
      · by_cases heq : c = conn <;> simp [heq]
    have hline : some signer ∉ mid.map (servedHint conn) := by
      intro hmem
      obtain ⟨e, he, heq⟩ := mem_map.mp hmem
      exact hnot e he ((hhint e signer).mp heq)
    have hcount := hsteps.count_le_one (hsound.bucket conn).nodup
      ((hsound.mem_hints_iff conn signer).mpr hleaf) hline other
    rw [count_map_some] at hcount
    simpa only [hhint] using hcount

/-- While connection `2` waits, connection `1` is served once. -/
theorem drr_fair_two :
    ∃ (h mid : List (DrrEntry ℕ)) (s s' : DrrState ℕ),
      Run (drr ℕ) (new ⟨4, 4, 4, 4, 8⟩) h s ∧
      Run (drr ℕ) s mid s' ∧
      s.Backlogged 2 ∧
      (∀ e ∈ mid, servedConn e ≠ some 2) ∧
      mid.countP (fun e => servedConn e = some 1) ≤ 1 := by
  obtain ⟨h, s, hrun, hleaf, htest⟩ := Run.exists_of_decide (drr ℕ) (new ⟨4, 4, 4, 4, 8⟩)
    [.enqueue 1 0 7, .enqueue 1 0 8, .enqueue 2 0 9]
    (fun _ s => s.leaf 2 0 ≠ [] ∧ ((drr ℕ).exec s [.pick]).any
      (fun r => decide (∀ e ∈ r.1, servedConn e ≠ some 2)) = true) (by decide)
  obtain ⟨mid, s', hmid, hnot⟩ := Run.exists_of_decide (drr ℕ) s [.pick]
    (fun mid _ => ∀ e ∈ mid, servedConn e ≠ some 2) htest
  have hbacklog : s.Backlogged 2 := ⟨0, hleaf⟩
  exact ⟨h, mid, s, s', hrun, hmid, hbacklog, hnot,
    (drr_fair ⟨4, 4, 4, 4, 8⟩ hrun hmid).1 2 hbacklog hnot 1⟩

end Fairness

section Confinement

/-- Two operations that differ in their hints at most. -/
inductive SameButHint : DrrOp R → DrrOp R → Prop
  | enqueue (conn : ConnId) (signer signer' : SignerHint) (req : R) :
      SameButHint (.enqueue conn signer req) (.enqueue conn signer' req)
  | pick : SameButHint .pick .pick

def NoRefusal (e : DrrEntry R) : Prop := ∀ req, e.out ≠ .enqueued (.error req)

/-- The request of a connection that an operation returned. -/
def servedTo (conn : ConnId) (e : DrrEntry R) : List R :=
  ((servedOf e).filter fun x => x.1.1 = conn).map Prod.snd

/-- Two operations agree if they bring a request of the connection. -/
def SameFor (conn : ConnId) (e e' : DrrEntry R) : Prop :=
  ∀ signer req, e.call = .enqueue conn signer req → e'.call = e.call

/-- Two schedulers that look alike from outside, and hold the same for some connections. -/
structure Alike (F : Set ConnId) (s s' : DrrState R) : Prop where
  active : s.outer.active = s'.outer.active
  depth : ∀ conn, (s.bucket conn).totalDepth = (s'.bucket conn).totalDepth
  bucket : ∀ conn ∈ F, s.bucket conn = s'.bucket conn

variable {F : Set ConnId} {s s' t t' : DrrState R}

theorem Alike.accept (halike : s.Alike F s') (hsound : s.Sound) (hsound' : s'.Sound)
    (conn : ConnId) {signer signer' : SignerHint} (req : R) (hhint : conn ∈ F → signer' = signer) :
    (s.accept conn signer req).Alike F (s'.accept conn signer' req) where
  active := by
    have hmem : conn ∈ s.outer.flows ↔ conn ∈ s'.outer.flows := by
      rw [← Tier.Sound.mem_active hsound, ← Tier.Sound.mem_active hsound', halike.active]
    rw [active_accept, active_accept, halike.active]
    simp only [hmem]
  depth c := by
    rw [bucket_accept, bucket_accept]
    split
    case isTrue => exact congrArg Nat.succ (halike.depth conn)
    · exact halike.depth c
  bucket c hc := by
    rw [bucket_accept, bucket_accept]
    split
    case isTrue heq =>
      subst heq
      rw [hhint hc, halike.bucket c hc]
    · exact halike.bucket c hc

theorem Alike.served {conn : ConnId} {rest : List ConnId} {signer signer' : SignerHint}
    {hints hints' : List SignerHint} {req req' : R} {deque deque' : List R} (halike : s.Alike F s')
    (hsound : s.Sound) (hsound' : s'.Sound) (hfront : s.Front conn rest signer hints req deque)
    (hfront' : s'.Front conn rest signer' hints' req' deque') :
    (s.served conn rest signer hints deque).Alike F (s'.served conn rest signer' hints' deque') ∧
      (conn ∈ F → signer = signer' ∧ req = req') := by
  have hsame : conn ∈ F → signer = signer' ∧ hints = hints' ∧ req = req' ∧ deque = deque' := by
    intro hconn
    have hinner := hfront.inner
    have hleaf := hfront.leaf
    rw [halike.bucket conn hconn, hfront'.inner] at hinner
    obtain ⟨rfl, rfl⟩ := List.cons.inj hinner
    rw [leaf, halike.bucket conn hconn] at hleaf
    obtain ⟨rfl, rfl⟩ := List.cons.inj (hfront'.leaf.symm.trans hleaf)
    exact ⟨rfl, rfl, rfl, rfl⟩
  refine ⟨⟨?_, ?_, ?_⟩, fun hconn => ⟨(hsame hconn).1, (hsame hconn).2.2.1⟩⟩
  · rw [DrrState.served, DrrState.served, Tier.active_turned, Tier.active_turned, depth_tier,
      depth_tier, Tier.totalDepth_turned, Tier.totalDepth_turned, halike.depth conn]
  · intro c
    rw [hfront.bucket_served hsound, hfront'.bucket_served hsound']
    split
    · rw [Tier.totalDepth_turned, Tier.totalDepth_turned, halike.depth conn]
    · exact halike.depth c
  · intro c hc
    rw [hfront.bucket_served hsound, hfront'.bucket_served hsound']
    split
    case isTrue heq =>
      subst heq
      obtain ⟨rfl, rfl, -, rfl⟩ := hsame hc
      rw [halike.bucket c hc]
    · exact halike.bucket c hc

/-- One operation of either run: the same connection is served, and the same request if the
connection is one of those that agree. -/
theorem Alike.step {op op' : DrrOp R} {out out' : DrrOut R} (halike : s.Alike F s')
    (hsound : s.Sound) (hsound' : s'.Sound) (heffect : s.Effect op t out)
    (heffect' : s'.Effect op' t' out') (hops : SameButHint op op')
    (hown : ∀ conn ∈ F, SameFor conn ⟨s, op, out⟩ ⟨s', op', out'⟩) (hok : NoRefusal ⟨s, op, out⟩)
    (hok' : NoRefusal ⟨s', op', out'⟩) :
    t.Alike F t' ∧ servedConn ⟨s, op, out⟩ = servedConn ⟨s', op', out'⟩ ∧
      ∀ conn ∈ F, servedTo conn ⟨s, op, out⟩ = servedTo conn ⟨s', op', out'⟩ := by
  cases hops with
  | enqueue conn signer _ req =>
    cases heffect with
    | refused => exact absurd rfl (hok req)
    | accepted _ _ _ =>
      cases heffect' with
      | refused => exact absurd rfl (hok' req)
      | accepted _ _ _ =>
        refine ⟨halike.accept hsound hsound' conn req ?_, ?_, ?_⟩
        · intro hconn
          have hcall := hown conn hconn signer req rfl
          simp only [DrrOp.enqueue.injEq] at hcall
          exact hcall.2.1
        · simp [servedConn]
        · intro c _
          simp [servedTo]
  | pick =>
    cases heffect with
    | idle hactive =>
      cases heffect' with
      | idle =>
        refine ⟨halike, ?_, ?_⟩
        · simp [servedConn]
        · intro c _
          simp [servedTo]
      | served _ _ _ _ _ _ hfront =>
        rw [halike.active, hfront.outer] at hactive
        cases hactive
    | served conn rest _ _ _ _ hfront =>
      cases heffect' with
      | idle hactive' =>
        rw [← halike.active, hfront.outer] at hactive'
        cases hactive'
      | served conn' rest' _ _ _ _ hfront' =>
        obtain ⟨rfl, rfl⟩ : conn = conn' ∧ rest = rest' :=
          List.cons.inj (hfront.outer.symm.trans (halike.active.trans hfront'.outer))
        obtain ⟨halike', hsame⟩ := halike.served hsound hsound' hfront hfront'
        refine ⟨halike', ?_, ?_⟩
        · rw [servedConn, servedConn, hfront.servedLeaf_eq, hfront'.servedLeaf_eq]
          rfl
        intro c hc
        rw [servedTo, servedTo, hfront.servedOf_eq, hfront'.servedOf_eq]
        by_cases heq : conn = c
        · subst heq
          simp [(hsame hc).2]
        · simp [heq]

theorem alike_runs {caps : Caps} {h h' : List (DrrEntry R)} {s s' : DrrState R}
    (hrun : Run (drr R) (new caps) h s) (hrun' : Run (drr R) (new caps) h' s')
    (hops : List.Forall₂ (fun e e' => SameButHint e.call e'.call) h h')
    (hown : ∀ conn ∈ F, List.Forall₂ (SameFor conn) h h') (hok : ∀ e ∈ h, NoRefusal e)
    (hok' : ∀ e ∈ h', NoRefusal e) :
    s.Alike F s' ∧ h.map servedConn = h'.map servedConn ∧
    ∀ conn ∈ F, h.map (servedTo conn) = h'.map (servedTo conn) := by
  induction hrun generalizing h' s' with
  | nil =>
    cases hops with
    | nil =>
      cases hrun' with
      | nil => exact ⟨⟨rfl, fun _ => rfl, fun _ _ => rfl⟩, rfl, fun _ _ => rfl⟩
  | snoc prev hstep ih =>
    cases hops with
    | cons hop hops =>
      cases hrun' with
      | snoc prev' hstep' =>
        have hown' : ∀ conn ∈ F, _ := fun conn hc => forall₂_cons.mp (hown conn hc)
        rw [forall_mem_cons] at hok hok'
        obtain ⟨halike, hconns, hreqs⟩ :=
          ih prev' hops (fun conn hc => (hown' conn hc).2) hok.2 hok'.2
        have hsound := run_sound prev
        have hsound' := run_sound prev'
        obtain ⟨halike', hconn, hreq⟩ := halike.step hsound hsound' (hsound.effect hstep)
          (hsound'.effect hstep') hop (fun conn hc => (hown' conn hc).1) hok.1 hok'.1
        refine ⟨halike', ?_, ?_⟩
        · rw [map_cons, map_cons, hconn, hconns]
        · intro c hc
          rw [map_cons, map_cons, hreq c hc, hreqs c hc]

/--
Hints do not reach beyond their connection.  Two runs of the same operations with
other hints, in which nothing is refused, serve the same connection in every turn;
and a connection whose own requests carry the same hints in both is served the
same requests in the same turns.
-/
theorem drr_confines_hints
    (caps : Caps)
    {h h' : List (DrrEntry R)}
    {s s' : DrrState R}
    (hrun : Run (drr R) (new caps) h s)
    (hrun' : Run (drr R) (new caps) h' s')
    (hops : List.Forall₂ (fun e e' => SameButHint e.call e'.call) h h')
    (hok : ∀ e ∈ h, NoRefusal e)
    (hok' : ∀ e ∈ h', NoRefusal e) :
    h.map servedConn = h'.map servedConn ∧
    ∀ conn, List.Forall₂ (SameFor conn) h h' →
      h.map (servedTo conn) = h'.map (servedTo conn) := by
  constructor
  · have hnone : ∀ conn ∈ (∅ : Set ConnId), List.Forall₂ (SameFor conn) h h' := by simp
    exact (alike_runs hrun hrun' hops hnone hok hok').2.1
  · intro conn hconn
    have hone : ∀ c ∈ ({conn} : Set ConnId), List.Forall₂ (SameFor c) h h' := by
      rintro c rfl
      exact hconn
    exact (alike_runs hrun hrun' hops hone hok hok').2.2 conn rfl

/-- A connection that splits its requests over two hints takes no turn from another one. -/
theorem drr_confines_hints_split :
    ∃ (h h' : List (DrrEntry ℕ)) (s s' : DrrState ℕ),
      Run (drr ℕ) (new ⟨4, 4, 4, 4, 8⟩) h s ∧
      Run (drr ℕ) (new ⟨4, 4, 4, 4, 8⟩) h' s' ∧
      h.map Entry.call = [.pick, .pick, .enqueue 2 0 9, .enqueue 1 0 8, .enqueue 1 0 7] ∧
      h'.map Entry.call = [.pick, .pick, .enqueue 2 0 9, .enqueue 1 5 8, .enqueue 1 0 7] ∧
      h.map (servedTo 2) = [[9], [], [], [], []] ∧
      h.map servedConn = h'.map servedConn ∧
      h.map (servedTo 2) = h'.map (servedTo 2) := by
  have hrun := Run.of_exec (show (drr ℕ).exec (new ⟨4, 4, 4, 4, 8⟩)
    [.enqueue 1 0 7, .enqueue 1 0 8, .enqueue 2 0 9, .pick, .pick] = some (_, _) from rfl)
  have hrun' := Run.of_exec (show (drr ℕ).exec (new ⟨4, 4, 4, 4, 8⟩)
    [.enqueue 1 0 7, .enqueue 1 5 8, .enqueue 2 0 9, .pick, .pick] = some (_, _) from rfl)
  obtain ⟨hconns, hreqs⟩ := drr_confines_hints ⟨4, 4, 4, 4, 8⟩ hrun hrun'
    (.cons .pick (.cons .pick (.cons (.enqueue ..) (.cons (.enqueue ..)
      (.cons (.enqueue ..) .nil)))))
    (by simp [NoRefusal]) (by simp [NoRefusal])
  exact ⟨_, _, _, _, hrun, hrun', rfl, rfl, rfl, hconns, hreqs 2 (by simp [SameFor])⟩

end Confinement

end DrrState
end Knomosis.Host
