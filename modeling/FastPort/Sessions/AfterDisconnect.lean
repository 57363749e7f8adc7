import FastPort.Sessions.Overlapped

/-! What is left of a session after a disconnect request: completions drain, one
after the other, without a callback and without a new operation, and the byte
totals go on to count. Whether the last of them calls `OnDisconnected` depends on
the state that the request has left. -/
namespace FastPort.Sessions

open FastPort.Commons FastPort.Foundation.Pool FastPort.Foundation.Tally
open FastPort.Foundation.Transition FastPort.Foundation.Transition.System

namespace Frame

/-- A frame that starts a user callback without another test of the disconnect
flag. -/
def announcing : Frame → Nat
  | readReceivedBuffers (.deliver _) | handleSendCompletion (.onSent _)
  | handleConnectCompletion .update | handleConnectCompletion .onConnected => 1
  | _ => 0

def raising (f : Frame) : Nat :=
  f.window + f.posting + f.handling

def rxDue : Frame → Nat
  | handleRecvCompletion (.start true bytesTransferred)
  | handleRecvCompletion (.commitWrite bytesTransferred)
  | handleRecvCompletion (.stamp bytesTransferred)
  | handleRecvCompletion (.addRxBytes bytesTransferred) => bytesTransferred
  | _ => 0

def txDue : Frame → Nat
  | handleSendCompletion (.start true bytesTransferred)
  | handleSendCompletion (.consume bytesTransferred)
  | handleSendCompletion (.addTxBytes bytesTransferred) => bytesTransferred
  | _ => 0

variable {choice : Choice} {s s' : Shared} {f : Frame} {fs : List Frame}

theorem Steps.announcing (h : f.Steps choice s s' fs) (hdisc : s.disconnectRequested = true)
    (hf : f.announcing = 0) : tally Frame.announcing fs = 0 ∧
      s'.log.filter Effect.isUserCallback = s.log.filter Effect.isUserCallback := by
  cases h
  all_goals simp_all [Frame.announcing, Effect.isUserCallback]

theorem Steps.raising (h : f.Steps choice s s' fs) (hdisc : s.disconnectRequested = true)
    (hf : f.raising = 0) :
    s'.outstandingIoCount = s.outstandingIoCount ∧ tally Frame.raising fs = 0 := by
  cases h
  all_goals simp_all [Frame.raising, Frame.window, Frame.posting, Frame.handling]

theorem Steps.rxDue (h : f.Steps choice s s' fs)
    (hzero : s.recvOverlapped.isZeroByte = true → f.needed s = 0)
    (hroom : f.needed s ≤ s.receiveBuffer.canWriteSize) :
    s'.totalRxBytes + UInt64.ofNat (tally Frame.rxDue fs) =
      s.totalRxBytes + UInt64.ofNat f.rxDue := by
  cases h
  case commitFailed hfull =>
    exact absurd hroom (Nat.not_le_of_lt (RingBuffer.commitWrite_eq_none.mp hfull))
  all_goals simp_all [Frame.rxDue, Frame.needed]

theorem Steps.txDue (h : f.Steps choice s s' fs) :
    s'.totalTxBytes + UInt64.ofNat (tally Frame.txDue fs) =
      s.totalTxBytes + UInt64.ofNat f.txDue := by
  cases h
  all_goals simp [Frame.txDue]

end Frame

variable {ok : World → Label → Prop} {w : World}

theorem closing_pos_of_opened (hw : system.Reach ok w)
    (hdisc : w.shared.disconnectRequested = true) (hopen : w.shared.socket = .opened) :
    0 < w.weigh Frame.closing := by
  have hnever : (w.shared.log.count .closed : Int) = w.weigh (fun _ => 0) := by
    refine frame_ledger (P := fun s => s.socket = .opened) (fun s => s.log.count .closed)
      (fun _ => 0) rfl ?_ ?_ (fun _ hopen => ⟨hopen, rfl⟩) ?_ hw hopen
    · intros
      rfl
    · intro w tid choice t f rest _ _ _ _ _ hopen'
      have hstep := f.steps_exec choice w.shared
      refine ⟨hstep.socket hopen', ?_⟩
      generalize (f.exec choice w.shared).1 = s' at hstep hopen' ⊢
      generalize (f.exec choice w.shared).2 = fs at hstep ⊢
      cases hstep
      case closed => cases hopen'
      all_goals simp
    · intro w event s' t' _ _ harrived hopen'
      cases harrived with
      | call call => cases call <;> exact ⟨hopen', by simp [ApiCall.frame]⟩
      | _ => exact ⟨hopen', by simp⟩
  have hbalance := closing_balance hw
  have hzero : w.weigh (fun _ => 0) = 0 := World.weigh_eq_zero.mpr fun _ _ => rfl
  have hclosings : w.shared.closings = 1 := by simp [Shared.closings, hdisc, hopen]
  omega

/-- What a disconnect request leaves once it has returned: the socket is closed,
no callback is to start, and only handlers may still touch the counter. -/
structure Ended (w : World) : Prop where
  disconnectRequested : w.shared.disconnectRequested = true
  closed : w.shared.socket ≠ .opened
  announcing : w.weigh Frame.announcing = 0
  raising : ∀ t ∈ w.threads, t.guard = none → tally Frame.raising t.frames = 0

namespace Ended

variable {tid : Nat} {choice : Choice} {t : Thread} {f : Frame} {rest : List Frame}

theorem exec (h : Ended w) (hthread : w.threads[tid]? = some t) (hframes : t.frames = f :: rest) :
    Ended ⟨(f.exec choice w.shared).1,
      w.threads.set tid ⟨t.guard, (f.exec choice w.shared).2 ++ rest⟩⟩ := by
  have hstep := f.steps_exec choice w.shared
  have hweigh := World.weigh_exec Frame.announcing hthread hframes (f.exec choice w.shared).1
    t.guard (f.exec choice w.shared).2
  have hf : f.announcing = 0 :=
    Nat.le_zero.mp (h.announcing ▸ World.weight_le_weigh hthread hframes)
  have hfs := (hstep.announcing h.disconnectRequested hf).1
  have hnone := h.announcing
  refine ⟨hstep.disconnectRequested h.disconnectRequested, mt hstep.socket h.closed, by omega,
    forall_mem_set h.raising fun hguard => ?_⟩
  have hsum := h.raising t (List.mem_of_getElem? hthread) hguard
  rw [hframes, tally_cons] at hsum
  have hraised := (hstep.raising h.disconnectRequested (by omega)).2
  rw [tally_append, hraised]
  omega

theorem release (h : Ended w) (hthread : w.threads[tid]? = some t) (hframes : t.frames = []) :
    Ended ⟨w.shared.release.1, w.threads.set tid ⟨none, w.shared.release.2⟩⟩ := by
  refine ⟨h.disconnectRequested, h.closed, ?_, forall_mem_set h.raising fun _ => ?_⟩
  · rw [World.weigh_released rfl hthread hframes]
    exact h.announcing
  · exact Shared.tally_release rfl _

theorem count_eq_zero (hw : system.Reach ok w) (h : Ended w)
    (hcount : w.shared.outstandingIoCount = 0) (hthread : w.threads[tid]? = some t)
    (hframes : t.frames = f :: rest) : (f.exec choice w.shared).1.outstandingIoCount = 0 := by
  have ht := List.mem_of_getElem? hthread
  have hguard : t.guard = none := by
    by_contra hsome
    have hone := one_le_of_handler hw ht (Option.isSome_iff_ne_none.mpr hsome)
    omega
  have hsum := h.raising t ht hguard
  rw [hframes, tally_cons] at hsum
  exact ((f.steps_exec choice w.shared).raising h.disconnectRequested (by omega)).1.trans hcount

theorem undoesSafely (hw : system.Reach ok w) (h : Ended w) (hthread : w.threads[tid]? = some t)
    (hframes : t.frames = f :: rest) : undoesSafely w (.run tid choice) := by
  rintro hundoes ⟨-, -, hone, -⟩
  have ht := List.mem_of_getElem? hthread
  obtain rfl : f = .tryPostSendFromQueue .undo :=
    Option.some.inj ((World.runs_eq hthread hframes).symm.trans (World.undoesSend_iff.mp hundoes))
  have hposting : Frame.posting (.tryPostSendFromQueue .undo) ≤ w.posting :=
    World.weight_le_weigh hthread hframes
  have hcount := outstandingIoCount_eq hw
  have hguard : t.guard = none := by
    by_contra hsome
    have hpos : 0 < w.handlers :=
      List.countP_pos_iff.mpr ⟨t, ht, Option.isSome_iff_ne_none.mpr hsome⟩
    simp only [Frame.posting] at hposting
    omega
  have hsum := h.raising t ht hguard
  rw [hframes, tally_cons] at hsum
  simp [Frame.raising, Frame.posting] at hsum

end Ended

/-- `OnDisconnected` is on its way only with the counter at zero, and some thread
is bound to find it there. -/
structure OnTime (w : World) : Prop where
  firing : Firing w → w.shared.outstandingIoCount = 0
  pursued : Pursued w

namespace OnTime

variable {tid : Nat} {choice : Choice} {t : Thread} {f : Frame} {rest : List Frame}

theorem exec (hw : system.Reach ok w) (hended : Ended w) (h : OnTime w)
    (hthread : w.threads[tid]? = some t) (hframes : t.frames = f :: rest) :
    OnTime ⟨(f.exec choice w.shared).1,
      w.threads.set tid ⟨t.guard, (f.exec choice w.shared).2 ++ rest⟩⟩ := by
  refine ⟨fun hfiring => hended.count_eq_zero hw ?_ hthread hframes,
    h.pursued.exec hw (hended.undoesSafely hw hthread hframes) hthread hframes⟩
  by_contra hcount
  have hbefore := mt h.firing hcount
  unfold Firing at hbefore
  rw [not_or, Nat.not_lt, Nat.le_zero] at hbefore
  have hstep := f.steps_exec choice w.shared
  have hf : f.nearFiring = 0 :=
    Nat.le_zero.mp (hbefore.2 ▸ World.weight_le_weigh hthread hframes)
  have hnear := World.weigh_exec Frame.nearFiring hthread hframes (f.exec choice w.shared).1
    t.guard (f.exec choice w.shared).2
  rcases hstep.nearFiring hf with hfs | ⟨-, hzero, -⟩
  · rcases hfiring with hfired | hpos
    · rcases hstep.fired_cases with hsame | ⟨rfl, -⟩
      · exact hbefore.1 (hsame ▸ hfired)
      · cases hf
    · omega
  · exact hcount hzero

theorem release (hw : system.Reach ok w) (h : OnTime w) {kind : IoKind}
    (hthread : w.threads[tid]? = some t) (hframes : t.frames = []) (hguard : t.guard = some kind) :
    OnTime ⟨w.shared.release.1, w.threads.set tid ⟨none, w.shared.release.2⟩⟩ := by
  have hone := one_le_of_handler hw (List.mem_of_getElem? hthread) (by simp [hguard])
  have hbefore := mt h.firing (show w.shared.outstandingIoCount ≠ 0 by omega)
  unfold Firing at hbefore
  rw [not_or, Nat.not_lt, Nat.le_zero] at hbefore
  have hnear := World.weigh_release Frame.nearFiring hthread hframes w.shared.release.1 none
    w.shared.release.2
  have hduty := World.weigh_release Frame.duty hthread hframes w.shared.release.1 none
    w.shared.release.2
  by_cases hlast : w.shared.outstandingIoCount = 1
  · refine ⟨fun _ => by simp only [Shared.release_fst]; omega, fun _ _ => .inl ?_⟩
    rw [hduty]
    simp [Shared.release, hlast, Frame.duty]
  · have hfs : w.shared.release.2 = [] := by simp [Shared.release, hlast]
    rw [hfs, tally_nil] at hnear
    refine ⟨fun hfiring => absurd hfiring ?_, fun _ _ => .inr ?_⟩
    · rintro (hfired | hpos)
      · exact hbefore.1 hfired
      · rw [hfs] at hpos
        omega
    · simp only [Shared.release_fst]
      omega

end OnTime

def onlyThread (tid : Nat) (_ : World) : Label → Prop
  | .run other choice => other = tid ∧ choice.call ≠ some .requestReceived
  | .spawn _ => False

instance (tid : Nat) (w : World) (l : Label) : Decidable (onlyThread tid w l) :=
  match l with
  | .run _ choice => inferInstanceAs (Decidable (_ ∧ choice.call ≠ _))
  | .spawn _ => .isFalse id

theorem loopOnly_of_onlyThread {tid : Nat} {l : Label} (h : onlyThread tid w l) : loopOnly w l := by
  cases l with
  | run other choice => exact h.2
  | spawn event => exact h.elim

def Event.isCompletion : Event → Bool
  | recvCompletion _ _ _ | sendCompletion _ _ _ | connectCompletion _ => true
  | call _ | connectEx => false

/-- What the completion adds to `m_TotalRxBytes`: the bytes of a successful real
receive. -/
def Event.rxBytes (w : World) : Option Event → Nat
  | some (recvCompletion _ true data) =>
      if w.shared.recvOverlapped.isZeroByte then 0 else data.length
  | _ => 0

/-- What the completion adds to `m_TotalTxBytes`. -/
def Event.txBytes : Option Event → Nat
  | some (sendCompletion _ true bytesTransferred) => bytesTransferred
  | _ => 0

def Event.left (k : Kernel) : Option Event → Kernel
  | some (recvCompletion index _ _) => { k with recvs := k.recvs.eraseIdx index }
  | some (sendCompletion index _ _) => { k with sends := k.sends.eraseIdx index }
  | some (connectCompletion _) => { k with connects := k.connects - 1 }
  | _ => k

/-- One turn: a thread that was at work comes to rest, or a completion is
delivered and its handler runs from its start to its end. -/
inductive Handled (w : World) : Option Event → World → Prop where
  | rest {tid : Nat} {w' : World} (hrun : (system.after w).Reach (onlyThread tid) w')
      (hquiet : w'.Quiet) : Handled w none w'
  | completion {event : Event} {w₁ w' : World} (hcompletion : event.isCompletion = true)
      (hspawn : system.step w (.spawn event) = some w₁)
      (hrun : (system.after w₁).Reach (onlyThread w.threads.length) w') (hquiet : w'.Quiet) :
      Handled w (some event) w'

inductive HandledAll (w : World) : List (Option Event) → World → Prop where
  | nil : HandledAll w [] w
  | snoc {turns : List (Option Event)} {turn : Option Event} {w' w'' : World} :
      HandledAll w turns w' → Handled w' turn w'' → HandledAll w (turns ++ [turn]) w''

def Thread.inBatch : Thread :=
  ⟨some .recv, [.callback .onPacketReceived, .readReceivedBuffers .checkDisconnect,
    .handleRecvCompletion .rearm]⟩

/-- `RequestDisconnect` has returned: no thread is inside a session method but,
possibly, the handler whose `OnPacketReceived` called it. -/
def Settled (w : World) : Prop :=
  ∀ t ∈ w.threads, (t.frames = [] ∧ t.guard = none) ∨ t = .inBatch

/-- A turn starts no callback and leaves no new operation behind, and it adds the
bytes of its completion to the totals. -/
structure Quietly (w : World) (turn : Option Event) (w' : World) : Prop where
  callbacks : w'.shared.log.filter Effect.isUserCallback =
    w.shared.log.filter Effect.isUserCallback
  kernel : w'.shared.toKernel = Event.left w.shared.toKernel turn
  rx : w'.shared.totalRxBytes = w.shared.totalRxBytes + UInt64.ofNat (Event.rxBytes w turn)
  tx : w'.shared.totalTxBytes = w.shared.totalTxBytes + UInt64.ofNat (Event.txBytes turn)

theorem World.Quiet.settled {w : World} (h : w.Quiet) : Settled w :=
  fun t ht => .inl (h t ht)

namespace Settled

variable {w : World}

theorem weigh (h : Settled w) {weight : Frame → Nat}
    (hbatch : tally weight Thread.inBatch.frames = 0) : w.weigh weight = 0 := by
  apply tally_eq_zero.mpr
  intro t ht
  rcases h t ht with ⟨hframes, -⟩ | rfl
  · rw [hframes, tally_nil]
  · exact hbatch

theorem ended (hw : system.Reach ok w) (hdisc : w.shared.disconnectRequested = true)
    (h : Settled w) : Ended w := by
  refine ⟨hdisc, fun hopen => ?_, h.weigh rfl, fun t ht hguard => ?_⟩
  · have hpos := closing_pos_of_opened hw hdisc hopen
    rw [h.weigh rfl] at hpos
    cases hpos
  · rcases h t ht with ⟨hframes, -⟩ | rfl
    · rw [hframes, tally_nil]
    · cases hguard

theorem count_onDisconnected (hw : system.Reach ok w) (h : Settled w) :
    w.shared.log.count .onDisconnected = w.shared.onDisconnectedFired.toNat := by
  have hbalance := firing_balance hw
  rw [h.weigh rfl] at hbalance
  omega

theorem onTime_iff (hw : system.Reach ok w) (hdisc : w.shared.disconnectRequested = true)
    (h : Settled w) : OnTime w ↔
      (w.shared.onDisconnectedFired = true ↔ w.shared.outstandingIoCount = 0) := by
  have hnonneg := outstandingIoCount_nonneg hw
  constructor
  · intro honTime
    refine ⟨fun hfired => honTime.firing (.inl hfired), fun hcount => ?_⟩
    by_contra hnot
    have hduty := honTime.pursued hdisc (by simpa using hnot)
    rw [h.weigh rfl] at hduty
    omega
  · intro hiff
    refine ⟨fun hfiring => ?_, fun _ hnot => .inr ?_⟩
    · rcases hfiring with hfired | hpos
      · exact hiff.mp hfired
      · rw [h.weigh rfl] at hpos
        cases hpos
    · have hsome : w.shared.outstandingIoCount ≠ 0 := fun hcount => by
        simp [hiff.mpr hcount] at hnot
      omega

end Settled

theorem due_exec {due : Frame → Nat} {total total' : UInt64} {tid : Nat} {t : Thread} {f : Frame}
    {rest fs : List Frame} (hthread : w.threads[tid]? = some t) (hframes : t.frames = f :: rest)
    (s' : Shared) (hstep : total' + UInt64.ofNat (tally due fs) = total + UInt64.ofNat (due f)) :
    total' + UInt64.ofNat (World.weigh ⟨s', w.threads.set tid ⟨t.guard, fs ++ rest⟩⟩ due) =
      total + UInt64.ofNat (w.weigh due) := by
  have hweigh := congrArg UInt64.ofNat (World.weigh_exec due hthread hframes s' t.guard fs)
  simp only [UInt64.ofNat_add] at hweigh
  grind

structure Drifted (w w' : World) : Prop where
  ended : Ended w'
  onTime : OnTime w → OnTime w'
  callbacks : w'.shared.log.filter Effect.isUserCallback =
    w.shared.log.filter Effect.isUserCallback
  kernel : w'.shared.toKernel = w.shared.toKernel
  rx : w'.shared.totalRxBytes + UInt64.ofNat (w'.weigh Frame.rxDue) =
    w.shared.totalRxBytes + UInt64.ofNat (w.weigh Frame.rxDue)
  tx : w'.shared.totalTxBytes + UInt64.ofNat (w'.weigh Frame.txDue) =
    w.shared.totalTxBytes + UInt64.ofNat (w.weigh Frame.txDue)

theorem Drifted.exec {w₁ : World} (hw : system.Reach loopOnly w) (h : Drifted w₁ w) {tid : Nat}
    {choice : Choice} {t : Thread} {f : Frame} {rest : List Frame}
    (hthread : w.threads[tid]? = some t) (hframes : t.frames = f :: rest) :
    Drifted w₁ ⟨(f.exec choice w.shared).1,
      w.threads.set tid ⟨t.guard, (f.exec choice w.shared).2 ++ rest⟩⟩ := by
  have hstep := f.steps_exec choice w.shared
  have hended : Ended ⟨(f.exec choice w.shared).1,
      w.threads.set tid ⟨t.guard, (f.exec choice w.shared).2 ++ rest⟩⟩ :=
    h.ended.exec hthread hframes
  have hf : f.announcing = 0 :=
    Nat.le_zero.mp (h.ended.announcing ▸ World.weight_le_weigh hthread hframes)
  have hneeded : f.needed w.shared ≤ w.weigh (Frame.needed w.shared) :=
    World.weight_le_weigh hthread hframes
  obtain ⟨hroom, hzero⟩ := fits hw
  refine ⟨hended, fun hbefore => (h.onTime hbefore).exec hw h.ended hthread hframes,
    (hstep.announcing h.ended.disconnectRequested hf).2.trans h.callbacks,
    (hstep.kernel hended.closed).trans h.kernel, ?_, ?_⟩
  · refine (due_exec hthread hframes _ (hstep.rxDue (fun hset => ?_) ?_)).trans h.rx
    · have := hzero hset
      omega
    · omega
  · exact (due_exec hthread hframes _ hstep.txDue).trans h.tx

theorem Drifted.release {w₁ : World} (hw : system.Reach loopOnly w) (h : Drifted w₁ w) {tid : Nat}
    {t : Thread} {kind : IoKind} (hthread : w.threads[tid]? = some t) (hframes : t.frames = [])
    (hguard : t.guard = some kind) :
    Drifted w₁ ⟨w.shared.release.1, w.threads.set tid ⟨none, w.shared.release.2⟩⟩ := by
  refine ⟨h.ended.release hthread hframes,
    fun hbefore => (h.onTime hbefore).release hw hthread hframes hguard, h.callbacks, h.kernel,
    ?_, ?_⟩
  · rw [World.weigh_released rfl hthread hframes]
    exact h.rx
  · rw [World.weigh_released rfl hthread hframes]
    exact h.tx

theorem drifted {w₁ : World} {tid : Nat} (hw₁ : system.Reach loopOnly w₁) (hended : Ended w₁)
    (hw : (system.after w₁).Reach (onlyThread tid) w) : Drifted w₁ w := by
  refine hw.invariant (I := Drifted w₁) ?_ ?_
  · rintro _ rfl
    exact ⟨hended, id, rfl, rfl, rfl, rfl⟩
  · intro w l w' hlater ih hok hstep
    have hreach := hw₁.of_after (hlater.mono fun _ _ => loopOnly_of_onlyThread)
    cases Machine.moved_of_step hstep with
    | run hthread hrun =>
      cases Thread.ran_of_run hrun with
      | exec hframes => exact ih.exec hreach hthread hframes
      | release hframes hguard => exact ih.release hreach hthread hframes hguard
    | spawn hspawn => exact hok.elim

theorem Ended.spawn (h : Ended w) {event : Event} {s' : Shared} {t' : Thread}
    (hcompletion : event.isCompletion = true) (harrived : w.shared.Arrived event s' t') :
    Ended ⟨s', w.threads ++ [t']⟩ := by
  cases harrived with
  | call call => cases hcompletion
  | connectEx hsocket => cases hcompletion
  | _ =>
    refine ⟨h.disconnectRequested, h.closed, ?_, forall_mem_append_singleton h.raising nofun⟩
    rw [World.weigh_spawn]
    exact h.announcing

theorem OnTime.spawn (h : OnTime w) {event : Event} {s' : Shared} {t' : Thread}
    (hcompletion : event.isCompletion = true) (harrived : w.shared.Arrived event s' t') :
    OnTime ⟨s', w.threads ++ [t']⟩ := by
  cases harrived with
  | call call => cases hcompletion
  | connectEx hsocket => cases hcompletion
  | _ =>
    refine ⟨fun hfiring => h.firing ?_, fun hdisc hnot => ?_⟩
    · exact hfiring.imp id fun hpos => by rwa [World.weigh_spawn] at hpos
    · rw [World.weigh_spawn]
      exact h.pursued hdisc hnot

theorem due_of_arrived (hw : system.Reach loopOnly w) {event : Event} {s' : Shared} {t' : Thread}
    (hcompletion : event.isCompletion = true) (harrived : w.shared.Arrived event s' t') :
    tally Frame.rxDue t'.frames = Event.rxBytes w (some event) ∧
      tally Frame.txDue t'.frames = Event.txBytes (some event) ∧
      s'.toKernel = Event.left w.shared.toKernel (some event) ∧ s'.log = w.shared.log ∧
      s'.totalRxBytes = w.shared.totalRxBytes ∧ s'.totalTxBytes = w.shared.totalTxBytes := by
  cases harrived with
  | call call => cases hcompletion
  | connectEx hsocket => cases hcompletion
  | @recvCompletion index success data buffers hpending hlength =>
    refine ⟨?_, rfl, rfl, rfl, rfl, rfl⟩
    cases success with
    | false => rfl
    | true =>
      simp only [tally_cons, tally_nil, Frame.rxDue, Event.rxBytes, Nat.add_zero]
      split
      · -- the zero-byte receive was posted without room
        rename_i hset
        have hzero := (fits hw).zeroByte hset
        have hle := le_tally (fun buffers => (spanCells buffers).length)
          (List.mem_of_getElem? hpending)
        unfold Shared.reserved at hzero
        omega
      · rfl
  | @sendCompletion index success bytes buffers hpending hlength =>
    refine ⟨rfl, ?_, rfl, rfl, rfl, rfl⟩
    cases success <;> rfl
  | connectCompletion hpending => exact ⟨rfl, rfl, rfl, rfl, rfl, rfl⟩

theorem Handled.quietly (hw : system.Reach loopOnly w) (hended : Ended w) (hsettled : Settled w)
    {turn : Option Event} {w' : World} (h : Handled w turn w') :
    Quietly w turn w' ∧ system.Reach loopOnly w' ∧ Ended w' ∧ Settled w' ∧
      (OnTime w → OnTime w') := by
  have hrx : w.weigh Frame.rxDue = 0 := hsettled.weigh rfl
  have htx : w.weigh Frame.txDue = 0 := hsettled.weigh rfl
  cases h with
  | rest hrun hquiet =>
    obtain ⟨hended', honTime, hcallbacks, hkernel, hrx', htx'⟩ := drifted hw hended hrun
    rw [hquiet.weigh, hrx] at hrx'
    rw [hquiet.weigh, htx] at htx'
    exact ⟨⟨hcallbacks, hkernel, by simpa [Event.rxBytes] using hrx',
        by simpa [Event.txBytes] using htx'⟩,
      hw.of_after (hrun.mono fun _ _ => loopOnly_of_onlyThread), hended', hquiet.settled, honTime⟩
  | @completion event w₁ w' hcompletion hspawn hrun hquiet =>
    have hfree : loopOnly w (.spawn event) := by
      cases event <;> trivial
    have hw₁ := hw.step hfree hspawn
    have hmoved : machine.Moved w (.spawn event) w₁ :=
      Machine.moved_of_step (l := .spawn event) hspawn
    cases hmoved with
    | @spawn _ t' s' harrive =>
      have harrived := Shared.arrived_of_arrive harrive
      obtain ⟨hrxDue, htxDue, hleft, hlog, hrxSame, htxSame⟩ :=
        due_of_arrived hw hcompletion harrived
      obtain ⟨hended', honTime, hcallbacks, hkernel, hrx', htx'⟩ :=
        drifted hw₁ (hended.spawn hcompletion harrived) hrun
      rw [hquiet.weigh, World.weigh_spawn, hrx, hrxDue, hrxSame] at hrx'
      rw [hquiet.weigh, World.weigh_spawn, htx, htxDue, htxSame] at htx'
      refine ⟨⟨hcallbacks.trans (by rw [hlog]), hkernel.trans hleft, by simpa using hrx',
          by simpa using htx'⟩,
        hw₁.of_after (hrun.mono fun _ _ => loopOnly_of_onlyThread), hended', hquiet.settled,
        fun hbefore => honTime (hbefore.spawn hcompletion harrived)⟩

theorem HandledAll.settled (hw : system.Reach loopOnly w) (hended : Ended w)
    (hsettled : Settled w) {turns : List (Option Event)} {w' : World}
    (h : HandledAll w turns w') :
    system.Reach loopOnly w' ∧ Ended w' ∧ Settled w' ∧ (OnTime w → OnTime w') := by
  induction h with
  | nil => exact ⟨hw, hended, hsettled, id⟩
  | snoc _ hturn ih =>
    obtain ⟨hw', hended', hsettled', honTime⟩ := ih
    obtain ⟨-, hw'', hended'', hsettled'', honTime'⟩ := hturn.quietly hw' hended' hsettled'
    exact ⟨hw'', hended'', hsettled'', fun hbefore => honTime' (honTime hbefore)⟩

/-- After a disconnect request every turn is quiet. `OnDisconnected` is called
once, when the counter goes to zero, if and only if the request has left it uncalled
with operations outstanding and called without. -/
theorem turns_after_disconnect {w : World} (hw : system.Reach loopOnly w)
    (hdisc : w.shared.disconnectRequested = true) (hsettled : Settled w) :
    (∀ turns w', HandledAll w turns w' → ∀ turn w'', Handled w' turn w'' →
      Quietly w' turn w'') ∧
    ((∀ turns w', HandledAll w turns w' → w'.shared.log.count .onDisconnected =
        if w'.shared.outstandingIoCount = 0 then 1 else 0) ↔
      (w.shared.onDisconnectedFired = true ↔ w.shared.outstandingIoCount = 0)) := by
  have hended := hsettled.ended hw hdisc
  refine ⟨fun turns w' hall turn w'' hturn => ?_, fun hclause => ?_, fun hiff turns w' hall => ?_⟩
  · obtain ⟨hw', hended', hsettled', -⟩ := hall.settled hw hended hsettled
    exact (hturn.quietly hw' hended' hsettled').1
  · have hnow := hclause [] w .nil
    rw [hsettled.count_onDisconnected hw] at hnow
    cases hfired : w.shared.onDisconnectedFired <;> simp_all
  · obtain ⟨hw', hended', hsettled', honTime⟩ := hall.settled hw hended hsettled
    have hiff' := (hsettled'.onTime_iff hw' hended'.disconnectRequested).mp
      (honTime ((hsettled.onTime_iff hw hdisc).mpr hiff))
    rw [hsettled'.count_onDisconnected hw']
    cases hfired : w'.shared.onDisconnectedFired <;> simp_all

def World.handle (w : World) (event : Event) (handler : List Label) : Option World :=
  if event.isCompletion then
    (system.step w (.spawn event)).bind fun w₁ =>
      ((system.after w₁).runUnder (onlyThread w.threads.length) w₁ handler).filter (·.Quiet)
  else none

theorem handled_of_handle {w w' : World} {event : Event} {handler : List Label}
    (h : w.handle event handler = some w') : Handled w (some event) w' := by
  unfold World.handle at h
  split at h
  · rename_i hcompletion
    obtain ⟨w₁, hspawn, hrest⟩ := Option.bind_eq_some_iff.mp h
    obtain ⟨hrun, hquiet⟩ := Option.filter_eq_some_iff.mp hrest
    exact .completion hcompletion hspawn (Reach.of_runUnder (.init rfl) hrun)
      (of_decide_eq_true hquiet)
  · cases h

/-- A receive and a send are pending when the disconnect is requested. -/
def requestedRun : List Label :=
  .spawn (.call .startReceiveLoop) :: Label.goes 0 7 ++
    .spawn (.call (.sendMessage ⟨1, [7]⟩)) :: Label.goes 1 11 ++
    .spawn (.call .requestDisconnect) :: Label.goes 2 6

/-- The send completes with a part of its bytes, then the receive is aborted. -/
theorem turns_after_disconnect_requestedRun :
    ∃ w w₁ w₂, system.runUnder loopOnly (World.fresh 16 16) requestedRun = some w ∧
      w.shared.outstandingIoCount = 2 ∧
      Handled w (some (.sendCompletion 0 true 2)) w₁ ∧
      Quietly w (some (.sendCompletion 0 true 2)) w₁ ∧
      w₁.shared.log.count .onDisconnected = 0 ∧
      Handled w₁ (some (.recvCompletion 0 false [])) w₂ ∧
      Quietly w₁ (some (.recvCompletion 0 false [])) w₂ ∧
      w₂.shared.log.count .onDisconnected = 1 := by
  obtain ⟨w, hrun, hrest⟩ := exists_of_runUnder system loopOnly (World.fresh 16 16) requestedRun
    (fun w => (w.handle (.sendCompletion 0 true 2) (Label.goes 3 5)).any fun w₁ =>
      (w₁.handle (.recvCompletion 0 false []) (Label.goes 4 11)).any fun w₂ =>
        w.shared.disconnectRequested && decide w.Quiet && !w.shared.onDisconnectedFired &&
          w.shared.outstandingIoCount == 2 && w₁.shared.outstandingIoCount == 1 &&
          w₂.shared.outstandingIoCount == 0) (by decide)
  obtain ⟨w₁, hfirst, hrest⟩ := (Option.any_eq_true _ _).mp hrest
  obtain ⟨w₂, hsecond, hat⟩ := (Option.any_eq_true _ _).mp hrest
  have hsend := handled_of_handle hfirst
  have hrecv := handled_of_handle hsecond
  simp only [Bool.and_eq_true, decide_eq_true_eq, Bool.not_eq_true', beq_iff_eq] at hat
  obtain ⟨⟨⟨⟨⟨hdisc, hquiet⟩, hfired⟩, htwo⟩, hone⟩, hzero⟩ := hat
  obtain ⟨hquietly, hclause⟩ := turns_after_disconnect
    ((World.reach_fresh 16 16).of_runUnder hrun) hdisc hquiet.settled
  have hcount := hclause.mpr (by simp [hfired, htwo])
  have hturn : HandledAll w [some (.sendCompletion 0 true 2)] w₁ := .snoc .nil hsend
  refine ⟨w, w₁, w₂, hrun, htwo, hsend, hquietly [] w .nil _ _ hsend, ?_, hrecv,
    hquietly _ _ hturn _ _ hrecv, ?_⟩
  · rw [hcount _ _ hturn, if_neg (by omega)]
  · rw [hcount _ _ (hturn.snoc hrecv), if_pos hzero]

/-- The run that posts after the firing, with both disconnect requests returned. -/
def earlyFiringRun : List Label :=
  postAfterFiring ++ Label.goes 2 4 ++ Label.goes 1 5

theorem not_turns_after_disconnect :
    ¬ ∀ (w : World) (event : Event) (w' : World), system.Reach loopOnly w →
      w.shared.disconnectRequested = true → w.Quiet → Handled w (some event) w' →
      w'.shared.outstandingIoCount = 0 →
      w'.shared.log.count .onDisconnected = w.shared.log.count .onDisconnected + 1 := by
  intro hclaim
  obtain ⟨w, hrun, hrest⟩ := exists_of_runUnder system loopOnly (World.fresh 16 16) earlyFiringRun
    (fun w => (w.handle (.sendCompletion 0 false 0) (Label.goes 3 6)).any fun w' =>
      w.shared.disconnectRequested && decide w.Quiet && w'.shared.outstandingIoCount == 0 &&
        w'.shared.log.count .onDisconnected == w.shared.log.count .onDisconnected) (by decide)
  obtain ⟨w', hhandled, hat⟩ := (Option.any_eq_true _ _).mp hrest
  simp only [Bool.and_eq_true, decide_eq_true_eq, beq_iff_eq] at hat
  obtain ⟨⟨⟨hdisc, hquiet⟩, hcount⟩, hsame⟩ := hat
  have hmore := hclaim w _ w' ((World.reach_fresh 16 16).of_runUnder hrun) hdisc hquiet
    (handled_of_handle hhandled) hcount
  omega

end FastPort.Sessions
