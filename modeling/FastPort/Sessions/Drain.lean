import FastPort.Sessions.Accounting

/-! The end of a session: `OnDisconnected` is to be called once every operation
has drained, and not to be left out. Both laws have a hole, in the window of a
posting function between its test of the disconnect flag and its increment, and
in the decrement that undoes a failed send. -/
namespace FastPort.Sessions

open FastPort.Foundation.Pool FastPort.Foundation.Tally
open FastPort.Foundation.Transition FastPort.Foundation.Transition.System

namespace Frame

/-- A frame that runs only after a disconnect was requested. -/
def ended : Frame → Nat
  | requestDisconnect .claim => 0
  | requestDisconnect _ => 1
  | tryFireOnDisconnected _ => 1
  | callback .onDisconnected => 1
  | _ => 0

def handling : Frame → Nat
  | handleRecvCompletion _ | readReceivedBuffers _ | handleSendCompletion _
  | handleConnectCompletion _ => 1
  | requestRecv zeroByte _ => (!zeroByte).toNat
  | callback kind => (kind != .onDisconnected).toNat
  | _ => 0

/-- A frame that is past its test of the disconnect flag and may increment the
counter without another. -/
def window : Frame → Nat
  | tryPostSendFromQueue .claim | tryPostSendFromQueue .getReadBuffers
  | tryPostSendFromQueue (.prepare _ _) | tryPostSendFromQueue .addOutstanding => 1
  | requestReceived .claim => 1
  | requestRecv _ .prepare | requestRecv _ .addOutstanding => 1
  | connectEx .addOutstanding => 1
  | _ => 0

/-- A frame on its way to a test of the counter: inside `RequestDisconnect`, on
the failure path of a receive, or in the test of a guard that went to zero. -/
def duty : Frame → Nat
  | requestDisconnect _ => 1
  | tryFireOnDisconnected .claim => 1
  | requestReceived .release | requestReceived .disconnect => 1
  | handleRecvCompletion .drop | handleRecvCompletion .disconnect => 1
  | guardCheck => 1
  | _ => 0

variable {choice : Choice} {s s' : Shared} {f : Frame} {fs : List Frame}

theorem Steps.ended (h : f.Steps choice s s' fs) (hf : f.ended = 0)
    (hdisc : s'.disconnectRequested = false) :
    s'.onDisconnectedFired = s.onDisconnectedFired ∧ tally Frame.ended fs = 0 := by
  cases h
  all_goals simp_all [Frame.ended]

theorem Steps.handling (h : f.Steps choice s s' fs) (hf : f.handling = 0) :
    tally Frame.handling fs = 0 := by
  cases h
  all_goals simp_all [Frame.handling]

theorem Steps.drained (h : f.Steps choice s s' fs) (hdisc : s.disconnectRequested = true)
    (hwindow : f.window = 0) (hposting : f.posting = 0) (hhandling : f.handling = 0) :
    s'.outstandingIoCount = s.outstandingIoCount ∧ tally Frame.window fs = 0 := by
  cases h
  all_goals simp_all [Frame.window, Frame.posting, Frame.handling]

theorem Steps.fired_cases (h : f.Steps choice s s' fs) :
    s'.onDisconnectedFired = s.onDisconnectedFired ∨
      (f = .tryFireOnDisconnected .claim ∧ s.onDisconnectedFired = false ∧
        s'.onDisconnectedFired = true ∧ s'.outstandingIoCount = s.outstandingIoCount ∧
        tally Frame.window fs = 0) := by
  cases h
  all_goals simp_all [Frame.window]

/-- While a requested disconnect has not fired, a frame on its way to the test
of the counter stays on its way until it finds the counter above zero; a frame
that takes a failed post back is on its way next, the failed send excepted. -/
theorem Steps.duty (h : f.Steps choice s s' fs) (hdisc : s.disconnectRequested = true)
    (hfired : s'.onDisconnectedFired = false) :
    0 < tally Frame.duty fs ∨
      (f.duty = 0 ∧ s.outstandingIoCount ≤ s'.outstandingIoCount) ∨
      (f = .requestDisconnect .loadOutstanding ∧ s.outstandingIoCount ≠ 0 ∧
        s'.outstandingIoCount = s.outstandingIoCount) ∨
      (f = .tryPostSendFromQueue .undo ∧
        s'.outstandingIoCount = s.outstandingIoCount - 1) := by
  cases h
  all_goals simp_all [Frame.duty]

theorem Steps.requested (h : f.Steps choice s s' fs) (hdisc : s.disconnectRequested = false)
    (hdisc' : s'.disconnectRequested = true) : tally Frame.duty fs = f.duty ∧ f.duty = 1 := by
  cases h
  all_goals simp_all [Frame.duty]

end Frame

variable {ok : World → Label → Prop} {w : World}

theorem ledger_before_disconnect (value : Shared → Int) (weight : Frame → Nat)
    (hguard : weight .guardCheck = 0)
    (hinit : ∀ receiveBuffer sendBuffer socket,
      value (Shared.initial receiveBuffer sendBuffer socket) = 0)
    (hexec : ∀ (w : World) (tid : Nat) (choice : Choice) (t : Thread) (f : Frame)
      (rest : List Frame), system.Reach ok w → ok w (.run tid choice) →
      w.threads[tid]? = some t → t.frames = f :: rest → w.shared.disconnectRequested = false →
      value w.shared = w.weigh weight →
      (f.exec choice w.shared).1.disconnectRequested = false →
      value (f.exec choice w.shared).1 + weight f =
        value w.shared + tally weight (f.exec choice w.shared).2)
    (hrelease : ∀ s : Shared, value s.release.1 = value s)
    (harrive : ∀ (w : World) (event : Event) (s' : Shared) (t' : Thread),
      system.Reach ok w → ok w (.spawn event) → w.shared.Arrived event s' t' →
      value s' = value w.shared + tally weight t'.frames)
    (hw : system.Reach ok w) (hdisc : w.shared.disconnectRequested = false) :
    value w.shared = w.weigh weight := by
  refine frame_ledger (P := fun s => s.disconnectRequested = false) value weight hguard hinit
    ?_ ?_ ?_ hw hdisc
  · intro w tid choice t f rest hreach hok hthread hframes ih hdisc'
    have hdisc := disconnectRequested_of_exec hdisc'
    exact ⟨hdisc, hexec w tid choice t f rest hreach hok hthread hframes hdisc (ih hdisc) hdisc'⟩
  · intro s hdisc'
    exact ⟨hdisc', hrelease s⟩
  · intro w event s' t' hreach hok harrived hdisc'
    refine ⟨?_, harrive w event s' t' hreach hok harrived⟩
    cases harrived <;> exact hdisc'

/-- The firing flag, and every frame past the disconnect exchange, imply that
the disconnect flag is set. -/
theorem ended_eq_zero (hw : system.Reach ok w) (hdisc : w.shared.disconnectRequested = false) :
    w.shared.onDisconnectedFired = false ∧ w.weigh Frame.ended = 0 := by
  have hledger : -(w.shared.onDisconnectedFired.toNat : Int) = w.weigh Frame.ended := by
    refine ledger_before_disconnect (fun s => -(s.onDisconnectedFired.toNat : Int)) Frame.ended
      rfl ?_ ?_ (fun _ => rfl) ?_ hw hdisc
    · intros
      rfl
    · intro w tid choice t f rest _ _ hthread hframes hdisc ih hdisc'
      have hle : f.ended ≤ w.weigh Frame.ended := World.weight_le_weigh hthread hframes
      have hf : f.ended = 0 := by omega
      obtain ⟨hfired, hfs⟩ := (f.steps_exec choice w.shared).ended hf hdisc'
      rw [hfired, hf, hfs]
    · intro w event s' t' _ _ harrived
      cases harrived with
      | call call => cases call <;> simp [ApiCall.frame, Frame.ended]
      | _ => simp [Frame.ended]
  cases hfired : w.shared.onDisconnectedFired with
  | true =>
    simp only [hfired, Bool.toNat_true] at hledger
    omega
  | false =>
    simp only [hfired, Bool.toNat_false] at hledger
    exact ⟨rfl, by omega⟩

theorem disconnectRequested_of_fired (hw : system.Reach ok w)
    (hfired : w.shared.onDisconnectedFired = true) : w.shared.disconnectRequested = true := by
  by_contra hdisc
  have hended := (ended_eq_zero hw (by simpa using hdisc)).1
  simp [hfired] at hended

theorem handling_eq_zero (hw : system.Reach ok w) :
    ∀ t ∈ w.threads, t.guard = none → tally Frame.handling t.frames = 0 := by
  refine Machine.forall_threads (m := machine)
    (T := fun t => t.guard = none → tally Frame.handling t.frames = 0) ?_ ?_ hw
  · intro choice s t s' t' ih hrun hguard
    cases Thread.ran_of_run hrun with
    | exec hframes =>
      have hsum := ih hguard
      simp only [hframes, tally_cons] at hsum
      have hfs := (Frame.steps_exec choice s _).handling (Nat.eq_zero_of_add_eq_zero_right hsum)
      simp only [tally_append, hfs]
      omega
    | release hframes hguard' =>
      unfold Shared.release
      split <;> rfl
  · intro event s s' t' hspawn hguard
    cases Shared.arrived_of_arrive hspawn with
    | call call => cases call <;> rfl
    | connectEx => rfl
    | recvCompletion => cases hguard
    | sendCompletion => cases hguard
    | connectCompletion => cases hguard

/-- A drained session: nothing is pending, and no thread is on its way to a post. -/
structure Drained (w : World) : Prop where
  outstanding : w.shared.outstandingIoCount = 0
  window : w.weigh Frame.window = 0

namespace Drained

theorem pending (hw : system.Reach ok w) (h : Drained w) : w.shared.pending = 0 := by
  have hcount := outstandingIoCount_eq hw
  have := h.outstanding
  omega

theorem posting (hw : system.Reach ok w) (h : Drained w) : w.weigh Frame.posting = 0 := by
  have hcount := outstandingIoCount_eq hw
  have := h.outstanding
  unfold World.posting at hcount
  omega

theorem guard (hw : system.Reach ok w) (h : Drained w) {t : Thread} (ht : t ∈ w.threads) :
    t.guard = none := by
  by_contra hguard
  have hone := one_le_of_handler hw ht (Option.isSome_iff_ne_none.mpr hguard)
  have := h.outstanding
  omega

theorem exec (hw : system.Reach ok w) (h : Drained w)
    (hdisc : w.shared.disconnectRequested = true) {tid : Nat} {choice : Choice} {t : Thread}
    {f : Frame} {rest : List Frame} (hthread : w.threads[tid]? = some t)
    (hframes : t.frames = f :: rest) :
    Drained ⟨(f.exec choice w.shared).1,
      w.threads.set tid ⟨t.guard, (f.exec choice w.shared).2 ++ rest⟩⟩ := by
  have ht := List.mem_of_getElem? hthread
  have hwindow : f.window = 0 :=
    Nat.le_zero.mp (h.window ▸ World.weight_le_weigh hthread hframes)
  have hposting : f.posting = 0 :=
    Nat.le_zero.mp (h.posting hw ▸ World.weight_le_weigh hthread hframes)
  have hhandling : f.handling = 0 := by
    have hsum := handling_eq_zero hw t ht (h.guard hw ht)
    rw [hframes, tally_cons] at hsum
    omega
  obtain ⟨hcount, hfs⟩ :=
    (f.steps_exec choice w.shared).drained hdisc hwindow hposting hhandling
  refine ⟨hcount.trans h.outstanding, ?_⟩
  have hweigh := World.weigh_exec Frame.window hthread hframes (f.exec choice w.shared).1 t.guard
    (f.exec choice w.shared).2
  have := h.window
  omega

end Drained

/-- The step takes the exchange of `m_bOnDisconnectedFired` that wins. -/
def World.fires (w : World) (l : Label) : Bool :=
  match w.runs l with
  | some (.tryFireOnDisconnected .claim) => !w.shared.onDisconnectedFired
  | _ => false

def plain (_ : World) (l : Label) : Prop :=
  l ≠ .spawn .connectEx

instance (w : World) (l : Label) : Decidable (plain w l) :=
  inferInstanceAs (Decidable (_ ≠ _))

/-- The firing exchange is won only in a drained session. -/
def firesDrained (w : World) (l : Label) : Prop :=
  plain w l ∧
    (w.fires l = true → w.shared.outstandingIoCount = 0 ∧ w.weigh Frame.window = 0)

instance (w : World) (l : Label) : Decidable (firesDrained w l) :=
  inferInstanceAs (Decidable (_ ∧ (_ → _ ∧ _)))

theorem drained_of_fired (hw : system.Reach firesDrained w) :
    w.shared.onDisconnectedFired = true → Drained w := by
  refine Machine.invariant (m := machine)
    (I := fun w => w.shared.onDisconnectedFired = true → Drained w) ?_ ?_ ?_ hw
  · rintro s ⟨receiveBuffer, sendBuffer, socket, -, -, rfl⟩ hfired
    cases hfired
  · intro w tid choice t s' t' hreach ih hok hthread hrun hfired
    cases Thread.ran_of_run hrun with
    | @exec f rest hframes =>
      rcases (f.steps_exec choice w.shared).fired_cases with hsame | ⟨rfl, hnot, -, hcount, hfs⟩
      · -- already fired: the step leaves a drained session drained
        have hfired : w.shared.onDisconnectedFired = true := hsame ▸ hfired
        exact (ih hfired).exec hreach (disconnectRequested_of_fired hreach hfired) hthread hframes
      · -- the winning exchange: the condition supplies the draining
        obtain ⟨hzero, hwindow⟩ := hok.2 (by
          simp [World.fires, World.runs_eq hthread hframes, hnot])
        refine ⟨hcount.trans hzero, ?_⟩
        have hweigh := World.weigh_exec Frame.window hthread hframes
          (Frame.exec choice w.shared (.tryFireOnDisconnected .claim)).1 t.guard
          (Frame.exec choice w.shared (.tryFireOnDisconnected .claim)).2
        omega
    | release hframes hguard =>
      have hnone := (ih hfired).guard hreach (List.mem_of_getElem? hthread)
      rw [hguard] at hnone
      cases hnone
  · intro w event s' t' hreach ih hok hspawn hfired
    have hfired : w.shared.onDisconnectedFired = true := by
      cases Shared.arrived_of_arrive hspawn <;> exact hfired
    have hdrained := ih hfired
    have hpending := hdrained.pending hreach
    unfold Shared.pending at hpending
    cases Shared.arrived_of_arrive hspawn with
    | call call =>
      refine ⟨hdrained.outstanding, ?_⟩
      rw [World.weigh_spawn, hdrained.window]
      cases call <;> rfl
    | connectEx hsocket => exact absurd rfl hok.1
    | recvCompletion hpends hlength =>
      obtain ⟨hlt, -⟩ := List.getElem?_eq_some_iff.mp hpends
      omega
    | sendCompletion hpends hlength =>
      obtain ⟨hlt, -⟩ := List.getElem?_eq_some_iff.mp hpends
      omega
    | connectCompletion hpends => omega

theorem fired_of_step {w w' : World} {l : Label} (hstep : system.step w l = some w')
    (hfired : w.shared.onDisconnectedFired = true) : w'.shared.onDisconnectedFired = true := by
  cases Machine.moved_of_step hstep with
  | run hthread hrun =>
    cases Thread.ran_of_run hrun with
    | @exec f rest hframes =>
      rcases (f.steps_exec _ w.shared).fired_cases with hsame | ⟨-, -, htrue, -⟩
      · exact hsame.trans hfired
      · exact htrue
    | release hframes hguard => exact hfired
  | spawn hspawn => cases Shared.arrived_of_arrive hspawn <;> exact hfired

theorem disconnectRequested_of_step {w w' : World} {l : Label}
    (hstep : system.step w l = some w') (hdisc' : w'.shared.disconnectRequested = false) :
    w.shared.disconnectRequested = false := by
  cases Machine.moved_of_step hstep with
  | run hthread hrun =>
    cases Thread.ran_of_run hrun with
    | exec hframes => exact disconnectRequested_of_exec hdisc'
    | release hframes hguard => exact hdisc'
  | spawn hspawn => cases Shared.arrived_of_arrive hspawn <;> exact hdisc'

/-- When every firing exchange is won in a drained session, nothing is pending
from the firing on, and the counter stays at zero. -/
theorem drain_before_onDisconnected {w : World} (hw : system.Reach firesDrained w)
    (hfired : w.shared.onDisconnectedFired = true) :
    ∀ w', (system.after w).Reach firesDrained w' →
      w'.shared.pending = 0 ∧ w'.shared.outstandingIoCount = 0 := by
  intro w' hlater
  have hreach : system.Reach firesDrained w' := hw.of_after hlater
  have hstill : w'.shared.onDisconnectedFired = true := by
    induction hlater with
    | init hinit => exact hinit ▸ hfired
    | step hprev _ hstep ih => exact fired_of_step hstep (ih (hw.of_after hprev))
  have hdrained := drained_of_fired hreach hstill
  exact ⟨hdrained.pending hreach, hdrained.outstanding⟩

/-- A send is posted, the session is disconnected, and the guard of the failed
completion fires. -/
def drainingRun : List Label :=
  .spawn (.call (.sendMessage ⟨1, []⟩)) :: Label.goes 0 11 ++
    .spawn (.call .requestDisconnect) :: Label.goes 1 6 ++
    .spawn (.sendCompletion 0 false 0) :: Label.goes 2 6

theorem drain_before_onDisconnected_of_guard :
    ∃ w : World, system.runUnder firesDrained (World.fresh 16 16) drainingRun = some w ∧
      ∀ w', (system.after w).Reach firesDrained w' →
        w'.shared.pending = 0 ∧ w'.shared.outstandingIoCount = 0 := by
  obtain ⟨w, hrun, hfired⟩ := exists_of_runUnder system firesDrained (World.fresh 16 16)
    drainingRun (fun w => w.shared.onDisconnectedFired) (by decide)
  exact ⟨w, hrun, drain_before_onDisconnected ((World.reach_fresh 16 16).of_runUnder hrun) hfired⟩

/-- A sender has passed its test of the disconnect flag and prepared its post. A
first disconnect is requested; a second one finds the counter at zero and fires
before the first has closed the socket; the sender then posts. -/
def postAfterFiring : List Label :=
  .spawn (.call (.sendMessage ⟨1, []⟩)) :: Label.goes 0 9 ++
    .spawn (.call .requestDisconnect) :: Label.goes 1 1 ++
    .spawn (.call .requestDisconnect) :: Label.goes 2 3 ++ Label.goes 0 2

theorem not_drain_before_onDisconnected :
    ¬ ∀ w : World, system.Reach plain w → w.shared.onDisconnectedFired = true →
      w.shared.pending = 0 ∧ w.shared.outstandingIoCount = 0 := by
  intro hclaim
  obtain ⟨w, hrun, hbad⟩ := exists_of_runUnder system plain (World.fresh 16 16)
    postAfterFiring (fun w => w.shared.onDisconnectedFired && w.shared.pending == 1) (by decide)
  simp only [Bool.and_eq_true, beq_iff_eq] at hbad
  have hpending := (hclaim w ((World.reach_fresh 16 16).of_runUnder hrun) hbad.1).1
  omega

def World.undoesSend (w : World) (l : Label) : Bool :=
  match w.runs l with
  | some (.tryPostSendFromQueue .undo) => true
  | _ => false

theorem World.undoesSend_iff {w : World} {l : Label} :
    w.undoesSend l = true ↔ w.runs l = some (.tryPostSendFromQueue .undo) := by
  unfold World.undoesSend
  split <;> simp_all

/-- No failed send is undone as the last operation of a session that is to fire,
with no other thread on its way to a test of the counter. -/
def undoesSafely (w : World) (l : Label) : Prop :=
  w.undoesSend l = true → ¬ (w.shared.disconnectRequested = true ∧
    w.shared.onDisconnectedFired = false ∧ w.shared.outstandingIoCount = 1 ∧
    w.weigh Frame.duty = 0)

instance (w : World) (l : Label) : Decidable (undoesSafely w l) :=
  inferInstanceAs (Decidable (_ → ¬ _))

/-- A disconnect that has not fired is in somebody's hands: a thread on its way
to a test of the counter, or whoever makes the counter zero. -/
def Pursued (w : World) : Prop :=
  w.shared.disconnectRequested = true → w.shared.onDisconnectedFired = false →
    0 < w.weigh Frame.duty ∨ 1 ≤ w.shared.outstandingIoCount

theorem Pursued.exec (hw : system.Reach ok w) (h : Pursued w) {tid : Nat} {choice : Choice}
    {t : Thread} {f : Frame} {rest : List Frame} (hok : undoesSafely w (.run tid choice))
    (hthread : w.threads[tid]? = some t) (hframes : t.frames = f :: rest) :
    Pursued ⟨(f.exec choice w.shared).1,
      w.threads.set tid ⟨t.guard, (f.exec choice w.shared).2 ++ rest⟩⟩ := by
  intro hdisc' hfired'
  have hstep := f.steps_exec choice w.shared
  have hcount := outstandingIoCount_nonneg hw
  have hweigh := World.weigh_exec Frame.duty hthread hframes (f.exec choice w.shared).1 t.guard
    (f.exec choice w.shared).2
  have hle : f.duty ≤ w.weigh Frame.duty := World.weight_le_weigh hthread hframes
  have hfired : w.shared.onDisconnectedFired = false := by
    rcases hstep.fired_cases with hsame | ⟨-, hnot, -⟩
    · exact hsame ▸ hfired'
    · exact hnot
  cases hdisc : w.shared.disconnectRequested with
  | false =>
    -- the step that requests the disconnect goes on inside RequestDisconnect
    have hwon := hstep.requested hdisc hdisc'
    left
    omega
  | true =>
    have hbefore := h hdisc hfired
    rcases hstep.duty hdisc hfired' with hduty | ⟨hf, hmore⟩ | ⟨-, hsome, hsame⟩ | ⟨rfl, hless⟩
    · left
      omega
    · rcases hbefore with hduty | hone
      · left
        omega
      · right
        exact hone.trans hmore
    · right
      change 1 ≤ (f.exec choice w.shared).1.outstandingIoCount
      omega
    · have hsafe := hok (World.undoesSend_iff.mpr (World.runs_eq hthread hframes))
      by_cases hlast : w.weigh Frame.duty = 0
      · right
        have hmore : w.shared.outstandingIoCount ≠ 1 := fun hone =>
          hsafe ⟨hdisc, hfired, hone, hlast⟩
        change 1 ≤ (Frame.exec choice w.shared (.tryPostSendFromQueue .undo)).1.outstandingIoCount
        omega
      · left
        simp only [Frame.duty] at hweigh
        omega

theorem pursued (hw : system.Reach undoesSafely w) : Pursued w := by
  refine Machine.invariant (m := machine) (I := Pursued) ?_ ?_ ?_ hw
  · rintro s ⟨receiveBuffer, sendBuffer, socket, -, -, rfl⟩ hdisc
    cases hdisc
  · intro w tid choice t s' t' hreach ih hok hthread hrun
    cases Thread.ran_of_run hrun with
    | exec hframes => exact ih.exec hreach hok hthread hframes
    | release hframes hguard =>
      intro hdisc hfired
      have hone := one_le_of_handler hreach (List.mem_of_getElem? hthread) (by simp [hguard])
      have hweigh := World.weigh_release Frame.duty hthread hframes w.shared.release.1 none
        w.shared.release.2
      by_cases hlast : w.shared.outstandingIoCount = 1
      · left
        rw [hweigh]
        simp [Shared.release, hlast, Frame.duty]
      · right
        simp only [Shared.release_fst]
        omega
  · intro w event s' t' _ ih _ hspawn hdisc hfired
    rw [World.weigh_spawn]
    cases Shared.arrived_of_arrive hspawn with
    | call call =>
      have := ih hdisc hfired
      simp only
      omega
    | _ =>
      have := ih hdisc hfired
      simp only
      omega

def World.Quiet (w : World) : Prop :=
  ∀ t ∈ w.threads, t.frames = [] ∧ t.guard = none

instance (w : World) : Decidable w.Quiet :=
  inferInstanceAs (Decidable (∀ t ∈ w.threads, t.frames = [] ∧ t.guard = none))

theorem World.Quiet.weigh {w : World} (h : w.Quiet) (weight : Frame → Nat) :
    w.weigh weight = 0 := by
  apply tally_eq_zero.mpr
  intro t ht
  rw [(h t ht).1, tally_nil]

theorem World.Quiet.handlers {w : World} (h : w.Quiet) : w.handlers = 0 := by
  apply List.countP_eq_zero.mpr
  intro t ht
  simp [(h t ht).2]

/-- Unless a failed send is undone as the last operation, a disconnect does not
get stuck: once it is requested and everything has come to rest, the counter is
zero and `OnDisconnected` has been called. -/
theorem no_stuck_disconnect {w : World} (hw : system.Reach undoesSafely w)
    (hdisc : w.shared.disconnectRequested = true) (hquiet : w.Quiet)
    (hpending : w.shared.pending = 0) :
    w.shared.outstandingIoCount = 0 ∧ w.shared.onDisconnectedFired = true ∧
      .onDisconnected ∈ w.shared.log := by
  have hcount : w.shared.outstandingIoCount = 0 := by
    rw [outstandingIoCount_eq hw, hpending, hquiet.handlers, World.posting, hquiet.weigh]
    rfl
  have hfired : w.shared.onDisconnectedFired = true := by
    by_contra hnot
    have hduty := hquiet.weigh Frame.duty
    have hpursued := pursued hw hdisc (by simpa using hnot)
    omega
  refine ⟨hcount, hfired, ?_⟩
  have hbalance := firing_balance hw
  rw [hquiet.weigh, hfired] at hbalance
  apply List.count_pos_iff.mp
  simp only [Bool.toNat_true] at hbalance
  omega

theorem no_stuck_disconnect_of_guard :
    ∃ w : World, system.runUnder undoesSafely (World.fresh 16 16)
        (drainingRun ++ Label.goes 2 4) = some w ∧
      w.shared.outstandingIoCount = 0 ∧ w.shared.onDisconnectedFired = true ∧
      .onDisconnected ∈ w.shared.log := by
  obtain ⟨w, hrun, hrest⟩ := exists_of_runUnder system undoesSafely (World.fresh 16 16)
    (drainingRun ++ Label.goes 2 4)
    (fun w => w.shared.disconnectRequested && decide w.Quiet && w.shared.pending == 0) (by decide)
  simp only [Bool.and_eq_true, beq_iff_eq, decide_eq_true_eq] at hrest
  exact ⟨w, hrun, no_stuck_disconnect ((World.reach_fresh 16 16).of_runUnder hrun) hrest.1.1
    hrest.1.2 hrest.2⟩

/-- A sender has counted its post when a disconnect runs to its end and finds
the counter at one; the post fails on the closed socket and is taken back. -/
def strandingRun : List Label :=
  .spawn (.call (.sendMessage ⟨1, []⟩)) :: Label.goes 0 10 ++
    .spawn (.call .requestDisconnect) :: Label.goes 1 6 ++ Label.goes 0 3

theorem not_no_stuck_disconnect :
    ¬ ∀ w : World, system.Reach plain w → w.shared.disconnectRequested = true → w.Quiet →
      w.shared.pending = 0 →
      w.shared.outstandingIoCount = 0 ∧ w.shared.onDisconnectedFired = true := by
  intro hclaim
  obtain ⟨w, hrun, hstuck⟩ := exists_of_runUnder system plain (World.fresh 16 16)
    strandingRun (fun w => w.shared.disconnectRequested && decide w.Quiet &&
      w.shared.pending == 0 && !w.shared.onDisconnectedFired) (by decide)
  simp only [Bool.and_eq_true, beq_iff_eq, decide_eq_true_eq, Bool.not_eq_true'] at hstuck
  obtain ⟨⟨⟨hdisc, hquiet⟩, hpending⟩, hnot⟩ := hstuck
  have hfired := (hclaim w ((World.reach_fresh 16 16).of_runUnder hrun) hdisc hquiet hpending).2
  simp [hnot] at hfired

end FastPort.Sessions
