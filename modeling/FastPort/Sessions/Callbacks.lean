import FastPort.Sessions.Drain

/-! User callbacks and the end of a session. While no disconnect is requested,
one receive is always armed once the receive loop has started, so the counter
cannot reach zero; after the request no new callback starts. Hence whoever finds
the counter at zero finds no callback running. -/
namespace FastPort.Sessions

open FastPort.Commons FastPort.Foundation.Pool FastPort.Foundation.Tally
open FastPort.Foundation.Transition FastPort.Foundation.Transition.System

def Effect.isUserCallback : Effect → Bool
  | .onConnected | .onPacketReceived _ | .onSent _ => true
  | _ => false

namespace Frame

def flagged : Frame → Nat
  | requestReceived .release => 1
  | requestRecv _ _ => 1
  | handleRecvCompletion .disconnect => 0
  | handleRecvCompletion _ => 1
  | _ => 0

/-- A frame that carries the receive loop on. -/
def arm : Frame → Nat
  | requestReceived _ | requestRecv _ _ | handleRecvCompletion _ => 1
  | _ => 0

def dropped : Frame → Nat
  | handleRecvCompletion .release => 1
  | _ => 0

def carrying : Frame → Nat
  | handleRecvCompletion (.start _ bytesTransferred) => if bytesTransferred = 0 then 0 else 1
  | _ => 0

def sending : Frame → Nat
  | sendMessage _ _ | tryPostSendFromQueue _ | handleSendCompletion _ => 1
  | _ => 0

def receiving : Frame → Nat
  | startReceiveLoop _ | requestReceived _ | requestRecv _ _ | handleRecvCompletion _
  | readReceivedBuffers _ | handleSendCompletion _ | handleConnectCompletion _ | callback _ => 1
  | _ => 0

def activating : Frame → Nat
  | handleConnectCompletion _ | startReceiveLoop _ => 1
  | requestDisconnect .claim => 1
  | _ => 0

def connecting : Frame → Nat
  | connectEx _ => 1
  | _ => 0

def connectToken : Frame → Nat
  | connectEx .addOutstanding | connectEx .setPending | connectEx .connectEx => 1
  | handleConnectCompletion _ => 1
  | _ => 0

/-- A user callback other than `OnDisconnected` that is running. -/
def userCallback : Frame → Nat
  | callback kind => (kind != .onDisconnected).toNat
  | _ => 0

/-- A frame that runs such a callback, or will without another test of the
disconnect flag. -/
def committed : Frame → Nat
  | readReceivedBuffers (.deliver _) => 1
  | handleSendCompletion (.onSent _) => 1
  | handleConnectCompletion .update | handleConnectCompletion .onConnected => 1
  | callback kind => (kind != .onDisconnected).toNat
  | _ => 0

def nearFiring : Frame → Nat
  | tryFireOnDisconnected _ | guardCheck => 1
  | _ => 0

theorem carrying_le_flagged (f : Frame) : f.carrying ≤ f.flagged := by
  unfold carrying flagged
  split <;> grind

theorem flagged_le_arm (f : Frame) : f.flagged ≤ f.arm := by
  unfold flagged arm
  split <;> simp

theorem arm_le_receiving (f : Frame) : f.arm ≤ f.receiving := by
  unfold arm receiving
  split <;> simp

theorem committed_le_handling (f : Frame) : f.committed ≤ f.handling := by
  unfold committed handling
  split <;> simp

theorem userCallback_le_committed (f : Frame) : f.userCallback ≤ f.committed := by
  unfold userCallback committed
  split <;> simp

variable {choice : Choice} {s s' : Shared} {f : Frame} {fs : List Frame}

theorem Steps.flagged (h : f.Steps choice s s' fs) (hdisc : s.disconnectRequested = false)
    (hended : f.ended = 0) (hflag : 0 < f.flagged → s.recvInProgress = true) :
    (s'.recvInProgress.toNat - s'.recvs.length : Int) + f.flagged =
      s.recvInProgress.toNat - s.recvs.length + tally Frame.flagged fs := by
  cases h
  all_goals simp_all [Frame.flagged, Frame.ended]
  all_goals omega

theorem Steps.arm (h : f.Steps choice s s' fs) (hdisc' : s'.disconnectRequested = false)
    (hcall : choice.call ≠ some .requestReceived)
    (hbusy : f = .requestReceived .claim → s.recvInProgress = false)
    (hzero : s.recvOverlapped.isZeroByte = true → f.carrying = 0)
    (hdrop : f.dropped = 0) :
    (s'.receiveLoopStarted.toNat - s'.recvs.length : Int) + f.arm =
      s.receiveLoopStarted.toNat - s.recvs.length + tally Frame.arm fs := by
  cases h
  all_goals simp_all [Frame.arm, Frame.carrying, Frame.dropped]
  all_goals omega

theorem Steps.dropped_eq_zero (h : f.Steps choice s s' fs)
    (hdisc' : s'.disconnectRequested = false)
    (hzero : s.recvOverlapped.isZeroByte = true → f.carrying = 0) :
    tally Frame.dropped fs = 0 := by
  cases h
  all_goals simp_all [Frame.carrying, Frame.dropped]

theorem Steps.carrying (h : f.Steps choice s s' fs) : tally Frame.carrying fs = 0 := by
  cases h
  all_goals simp [Frame.carrying]

theorem Steps.recvOverlapped (h : f.Steps choice s s' fs) :
    (s'.recvOverlapped = s.recvOverlapped ∧
        (s'.recvs = s.recvs ∨ s'.recvs = s.recvs ++ [s.recvOverlapped.wsaBufs])) ∨
      s'.recvOverlapped.isZeroByte = false ∨
      (f = .requestRecv true .prepare ∧ s'.recvOverlapped.wsaBufs = [⟨0, 0⟩] ∧
        s'.recvs = s.recvs) := by
  cases h
  all_goals simp

theorem Steps.receiveLoopStarted (h : f.Steps choice s s' fs)
    (hstarted : s.receiveLoopStarted = true) : s'.receiveLoopStarted = true := by
  cases h
  all_goals first | exact hstarted | rfl

theorem Steps.receivePosted (h : f.Steps choice s s' fs) :
    s'.receivePosted = s.receivePosted ∨ f.arm = 1 ∧ tally Frame.arm fs = 0 := by
  cases h
  all_goals simp [Frame.arm]

theorem Steps.receivePosted_of (h : f.Steps choice s s' fs) (hposted : s.receivePosted = true) :
    s'.receivePosted = true := by
  cases h
  all_goals first | exact hposted | rfl

theorem Steps.arm_eq_zero (h : f.Steps choice s s' fs) (hf : f.arm = 0)
    (hstarted : s.receiveLoopStarted = true) (hcall : choice.call ≠ some .requestReceived) :
    tally Frame.arm fs = 0 := by
  cases h
  all_goals simp_all [Frame.arm]

theorem Steps.receiving_eq_zero (h : f.Steps choice s s' fs) (hf : f.receiving = 0)
    (hended : f.ended = 0) : tally Frame.receiving fs = 0 := by
  cases h
  all_goals simp_all [Frame.receiving, Frame.ended]

theorem Steps.activating (h : f.Steps choice s s' fs) (hf : 0 < f.activating)
    (hdisc' : s'.disconnectRequested = false) :
    0 < tally Frame.activating fs ∨ s'.receiveLoopStarted = true := by
  cases h
  all_goals simp_all [Frame.activating]

theorem Steps.unposted (h : f.Steps choice s s' fs) (hf : f.sending = 0)
    (hposted : s'.receivePosted = false) (hcall : ∀ m, choice.call ≠ some (.sendMessage m)) :
    s.receivePosted = false ∧ s'.recvs = s.recvs ∧ s'.sends = s.sends ∧
      tally Frame.sending fs = 0 := by
  cases h
  all_goals simp_all [Frame.sending]

theorem Steps.connecting (h : f.Steps choice s s' fs) (hf : f.connecting = 0) :
    s'.connects = s.connects ∧ tally Frame.connecting fs = 0 := by
  cases h
  all_goals simp_all [Frame.connecting]

theorem Steps.connectToken (h : f.Steps choice s s' fs) :
    s'.connectStarted = s.connectStarted ∧
      s'.log.count .onConnected + s'.connects + tally Frame.connectToken fs ≤
        s.log.count .onConnected + s.connects + f.connectToken := by
  cases h
  all_goals simp [Frame.connectToken]
  all_goals omega

theorem Steps.committed_eq_zero (h : f.Steps choice s s' fs) (hdisc : s.disconnectRequested = true)
    (hf : f.committed = 0) : tally Frame.committed fs = 0 := by
  cases h
  all_goals simp_all [Frame.committed]

theorem Steps.nearFiring (h : f.Steps choice s s' fs) (hf : f.nearFiring = 0) :
    tally Frame.nearFiring fs = 0 ∨
      (f.ended = 1 ∧ s.outstandingIoCount = 0 ∧ tally Frame.committed fs = 0) := by
  cases h
  all_goals simp_all [Frame.nearFiring, Frame.ended, Frame.committed]

theorem Steps.log (h : f.Steps choice s s' fs) :
    s'.log = s.log ∨ ∃ e, s'.log = s.log ++ [e] ∧ (e.isUserCallback = true → f.committed = 1) := by
  cases h
  all_goals simp [Frame.committed, Effect.isUserCallback]

end Frame

variable {ok : World → Label → Prop} {w : World}

theorem flagged_balance (hw : system.Reach ok w) (hdisc : w.shared.disconnectRequested = false) :
    (w.shared.recvInProgress.toNat - w.shared.recvs.length : Int) = w.weigh Frame.flagged := by
  refine ledger_before_disconnect (fun s => s.recvInProgress.toNat - s.recvs.length) Frame.flagged
    rfl ?_ ?_ (fun _ => rfl) ?_ hw hdisc
  · intros
    rfl
  · intro w tid choice t f rest hreach _ hthread hframes hdisc ih _
    refine (f.steps_exec choice w.shared).flagged hdisc ?_ fun hpos => ?_
    · exact Nat.le_zero.mp
        ((ended_eq_zero hreach hdisc).2 ▸ World.weight_le_weigh hthread hframes)
    · have hle : f.flagged ≤ w.weigh Frame.flagged := World.weight_le_weigh hthread hframes
      cases hflag : w.shared.recvInProgress with
      | true => rfl
      | false =>
        simp only [hflag, Bool.toNat_false] at ih
        omega
  · intro w event s' t' _ _ harrived
    cases harrived with
    | call call => cases call <;> simp [ApiCall.frame, Frame.flagged]
    | recvCompletion hpending hlength =>
      obtain ⟨hlt, -⟩ := List.getElem?_eq_some_iff.mp hpending
      simp only [List.length_eraseIdx_of_lt hlt, tally_cons, tally_nil, Frame.flagged]
      omega
    | _ => simp [Frame.flagged]

theorem recvs_eq_nil_of_flagged (hw : system.Reach ok w)
    (hdisc : w.shared.disconnectRequested = false) (hflagged : 0 < w.weigh Frame.flagged) :
    w.shared.recvs = [] ∧ w.weigh Frame.flagged = 1 := by
  have hbalance := flagged_balance hw hdisc
  have hle : w.shared.recvInProgress.toNat ≤ 1 := Bool.toNat_le _
  have hlength : w.shared.recvs.length = 0 := by omega
  exact ⟨List.length_eq_zero_iff.mp hlength, by omega⟩

structure ZeroByte (w : World) : Prop where
  prepared : spanCells w.shared.recvOverlapped.wsaBufs = []
  posted : ∀ buffers ∈ w.shared.recvs, spanCells buffers = []
  arrived : w.weigh Frame.carrying = 0

theorem zeroByte (hw : system.Reach ok w) (hdisc : w.shared.disconnectRequested = false)
    (hzero : w.shared.recvOverlapped.isZeroByte = true) : ZeroByte w := by
  refine Machine.invariant (m := machine)
    (I := fun w => w.shared.disconnectRequested = false →
      w.shared.recvOverlapped.isZeroByte = true → ZeroByte w) ?_ ?_ ?_ hw hdisc hzero
  · rintro s ⟨receiveBuffer, sendBuffer, socket, -, -, rfl⟩ _ hzero
    cases hzero
  · intro w tid choice t s' t' hreach ih _ hthread hrun hdisc' hzero'
    cases Thread.ran_of_run hrun with
    | @exec f rest hframes =>
      have hdisc := disconnectRequested_of_exec hdisc'
      have hstep := f.steps_exec choice w.shared
      have hweigh := World.weigh_exec Frame.carrying hthread hframes
        (f.exec choice w.shared).1 t.guard (f.exec choice w.shared).2
      rw [hstep.carrying] at hweigh
      rcases hstep.recvOverlapped with ⟨hsame, hrecvs⟩ | hreal | ⟨rfl, hprepared, hrecvs⟩
      · obtain ⟨hbufs, hposted, harrived⟩ := ih hdisc (hsame ▸ hzero')
        refine ⟨hsame ▸ hbufs, fun buffers hmem => ?_, by omega⟩
        rcases hrecvs with hrecvs | hrecvs
        · exact hposted buffers (hrecvs ▸ hmem)
        · rw [hrecvs] at hmem
          exact forall_mem_append_singleton hposted hbufs buffers hmem
      · simp [hreal] at hzero'
      · -- the zero-byte receive is being prepared: its holder of the flag is alone
        have hpos : Frame.flagged (.requestRecv true .prepare) ≤ World.weigh w Frame.flagged :=
          World.weight_le_weigh hthread hframes
        obtain ⟨hnil, hone⟩ := recvs_eq_nil_of_flagged hreach hdisc hpos
        have hless : World.weigh w Frame.carrying < World.weigh w Frame.flagged :=
          World.weigh_lt_weigh Frame.carrying_le_flagged hthread hframes Nat.one_pos
        refine ⟨by rw [hprepared]; rfl, ?_, by omega⟩
        rw [hrecvs, hnil]
        simp
    | release hframes hguard =>
      obtain ⟨hbufs, hposted, harrived⟩ := ih hdisc' hzero'
      refine ⟨hbufs, hposted, ?_⟩
      rw [World.weigh_release Frame.carrying hthread hframes, harrived,
        Shared.tally_release rfl]
  · intro w event s' t' hreach ih _ hspawn hdisc' hzero'
    cases Shared.arrived_of_arrive hspawn with
    | call call =>
      obtain ⟨hbufs, hposted, harrived⟩ := ih hdisc' hzero'
      refine ⟨hbufs, hposted, ?_⟩
      rw [World.weigh_spawn, harrived]
      cases call <;> rfl
    | @recvCompletion index success data buffers hpending hlength =>
      obtain ⟨hbufs, hposted, harrived⟩ := ih hdisc' hzero'
      refine ⟨hbufs, fun b hmem => hposted b (List.mem_of_mem_eraseIdx hmem), ?_⟩
      rw [hposted buffers (List.mem_of_getElem? hpending)] at hlength
      rw [World.weigh_spawn, harrived]
      simpa [Frame.carrying] using hlength
    | _ =>
      obtain ⟨hbufs, hposted, harrived⟩ := ih hdisc' hzero'
      refine ⟨hbufs, hposted, ?_⟩
      rw [World.weigh_spawn, harrived]
      rfl

theorem carrying_eq_zero (hw : system.Reach ok w) (hdisc : w.shared.disconnectRequested = false)
    {tid : Nat} {t : Thread} {f : Frame} {rest : List Frame} (hthread : w.threads[tid]? = some t)
    (hframes : t.frames = f :: rest) (hzero : w.shared.recvOverlapped.isZeroByte = true) :
    f.carrying = 0 := by
  have hle : f.carrying ≤ w.weigh Frame.carrying := World.weight_le_weigh hthread hframes
  have hnone := (zeroByte hw hdisc hzero).arrived
  omega

theorem dropped_eq_zero (hw : system.Reach ok w) (hdisc : w.shared.disconnectRequested = false) :
    w.weigh Frame.dropped = 0 := by
  have hledger : (0 : Int) = w.weigh Frame.dropped := by
    refine ledger_before_disconnect (fun _ => 0) Frame.dropped rfl ?_ ?_ (fun _ => rfl) ?_ hw hdisc
    · intros
      rfl
    · intro w tid choice t f rest hreach _ hthread hframes hdisc ih hdisc'
      have hle : f.dropped ≤ w.weigh Frame.dropped := World.weight_le_weigh hthread hframes
      have hfs := (f.steps_exec choice w.shared).dropped_eq_zero hdisc'
        (carrying_eq_zero hreach hdisc hthread hframes)
      omega
    · intro w event s' t' _ _ harrived
      cases harrived with
      | call call => cases call <;> rfl
      | _ => rfl
  omega

/-- How a session is used: who calls what. The user sends only after the first
receive has been posted and does not re-arm the receive himself; the receive
loop of an outbound session is started by its own `OnConnected`, after the one
`ConnectEx` of its connector. -/
def userCall (w : World) : Option ApiCall → Prop
  | some (.sendMessage _) => w.shared.receivePosted = true
  | some .requestReceived => False
  | _ => True

instance (w : World) (call : Option ApiCall) : Decidable (userCall w call) :=
  match call with
  | none => .isTrue trivial
  | some (.sendMessage _) => inferInstanceAs (Decidable (_ = _))
  | some .startReceiveLoop => .isTrue trivial
  | some .requestReceived => .isFalse id
  | some .requestDisconnect => .isTrue trivial

def used (outbound : Bool) (w : World) : Label → Prop
  | .run _ choice => userCall w choice.call
  | .spawn (.call call) =>
      userCall w (some call) ∧ (outbound = true → call ≠ .startReceiveLoop)
  | .spawn .connectEx => outbound = true ∧ w.shared.connectStarted = false
  | .spawn _ => True

instance (outbound : Bool) (w : World) (l : Label) : Decidable (used outbound w l) :=
  match l with
  | .run _ choice => inferInstanceAs (Decidable (userCall w choice.call))
  | .spawn (.call _) => inferInstanceAs (Decidable (_ ∧ (_ → _ ≠ _)))
  | .spawn .connectEx => inferInstanceAs (Decidable (_ ∧ _))
  | .spawn (.recvCompletion ..) => .isTrue trivial
  | .spawn (.sendCompletion ..) => .isTrue trivial
  | .spawn (.connectCompletion _) => .isTrue trivial

/-- Nobody but the receive loop itself calls `RequestReceived`. -/
def loopOnly (_ : World) : Label → Prop
  | .run _ choice => choice.call ≠ some .requestReceived
  | .spawn (.call call) => call ≠ .requestReceived
  | .spawn _ => True

instance (w : World) (l : Label) : Decidable (loopOnly w l) :=
  match l with
  | .run _ choice => inferInstanceAs (Decidable (choice.call ≠ _))
  | .spawn (.call call) => inferInstanceAs (Decidable (call ≠ _))
  | .spawn .connectEx => .isTrue trivial
  | .spawn (.recvCompletion ..) => .isTrue trivial
  | .spawn (.sendCompletion ..) => .isTrue trivial
  | .spawn (.connectCompletion _) => .isTrue trivial

theorem fired_of_onDisconnected (hw : system.Reach ok w)
    (hmem : .onDisconnected ∈ w.shared.log) : w.shared.onDisconnectedFired = true := by
  have hbalance := firing_balance hw
  have hpos := List.count_pos_iff.mpr hmem
  cases hfired : w.shared.onDisconnectedFired with
  | true => rfl
  | false =>
    simp only [hfired, Bool.toNat_false] at hbalance
    omega

section

variable {outbound : Bool}

theorem loopOnly_of_used {l : Label} (hok : used outbound w l) : loopOnly w l := by
  cases l with
  | run tid choice =>
    intro hcall
    have huser : userCall w choice.call := hok
    rw [hcall] at huser
    exact huser
  | spawn event =>
    cases event with
    | call call =>
      rintro rfl
      exact hok.1
    | _ => trivial

end

theorem arm_balance (hw : system.Reach loopOnly w)
    (hdisc : w.shared.disconnectRequested = false) :
    (w.shared.receiveLoopStarted.toNat - w.shared.recvs.length : Int) = w.weigh Frame.arm := by
  refine ledger_before_disconnect (fun s => s.receiveLoopStarted.toNat - s.recvs.length) Frame.arm
    rfl ?_ ?_ (fun _ => rfl) ?_ hw hdisc
  · intros
    rfl
  · intro w tid choice t f rest hreach hok hthread hframes hdisc ih hdisc'
    refine (f.steps_exec choice w.shared).arm hdisc' hok ?_
      (carrying_eq_zero hreach hdisc hthread hframes) ?_
    · -- the claiming frame is the one token, so nobody holds the flag
      rintro rfl
      have hless : World.weigh w Frame.flagged < World.weigh w Frame.arm :=
        World.weigh_lt_weigh Frame.flagged_le_arm hthread hframes Nat.one_pos
      have hflagged := flagged_balance hreach hdisc
      have hstarted : w.shared.receiveLoopStarted.toNat ≤ 1 := Bool.toNat_le _
      cases hflag : w.shared.recvInProgress with
      | false => rfl
      | true =>
        simp only [hflag, Bool.toNat_true] at hflagged
        omega
    · have hle : f.dropped ≤ World.weigh w Frame.dropped :=
        World.weight_le_weigh hthread hframes
      have hnone := dropped_eq_zero hreach hdisc
      omega
  · intro w event s' t' _ hok harrived
    cases harrived with
    | call call =>
      cases call with
      | requestReceived => exact absurd rfl hok
      | _ => simp [ApiCall.frame, Frame.arm]
    | recvCompletion hpending hlength =>
      obtain ⟨hlt, -⟩ := List.getElem?_eq_some_iff.mp hpending
      simp only [List.length_eraseIdx_of_lt hlt, tally_cons, tally_nil, Frame.arm]
      omega
    | _ => simp [Frame.arm]

section

variable {outbound : Bool}

/-- Before the first receive is posted, only a connect can be on its way. -/
structure Unposted (w : World) : Prop where
  recvs : w.shared.recvs = []
  sends : w.shared.sends = []
  sending : w.weigh Frame.sending = 0
  guards : ∀ t ∈ w.threads, t.guard = none ∨ t.guard = some .connect

theorem unposted (hw : system.Reach (used outbound) w) (hposted : w.shared.receivePosted = false) :
    Unposted w := by
  refine Machine.invariant (m := machine)
    (I := fun w => w.shared.receivePosted = false → Unposted w) ?_ ?_ ?_ hw hposted
  · rintro s ⟨receiveBuffer, sendBuffer, socket, -, -, rfl⟩ _
    exact ⟨rfl, rfl, rfl, by simp⟩
  · intro w tid choice t s' t' hreach ih hok hthread hrun hposted'
    cases Thread.ran_of_run hrun with
    | @exec f rest hframes =>
      have hstep := f.steps_exec choice w.shared
      have hposted : w.shared.receivePosted = false := by
        by_contra hset
        have hstill := hstep.receivePosted_of (by simpa using hset)
        simp [hstill] at hposted'
      obtain ⟨hrecvs, hsends, hsending, hguards⟩ := ih hposted
      have hf : f.sending = 0 := Nat.le_zero.mp (hsending ▸ World.weight_le_weigh hthread hframes)
      have hcall : ∀ m, choice.call ≠ some (.sendMessage m) := by
        intro m hcall
        have huser : userCall w choice.call := hok
        rw [hcall] at huser
        exact Bool.false_ne_true (hposted.symm.trans huser)
      obtain ⟨-, hrecvs', hsends', hfs⟩ := hstep.unposted hf hposted' hcall
      have hweigh := World.weigh_exec Frame.sending hthread hframes (f.exec choice w.shared).1
        t.guard (f.exec choice w.shared).2
      exact ⟨hrecvs'.trans hrecvs, hsends'.trans hsends, by omega,
        forall_mem_set hguards (hguards t (List.mem_of_getElem? hthread))⟩
    | release hframes hguard =>
      obtain ⟨hrecvs, hsends, hsending, hguards⟩ := ih hposted'
      refine ⟨hrecvs, hsends, ?_, forall_mem_set hguards (.inl rfl)⟩
      rw [World.weigh_release Frame.sending hthread hframes, hsending, Shared.tally_release rfl]
  · intro w event s' t' hreach ih hok hspawn hposted'
    cases Shared.arrived_of_arrive hspawn with
    | call call =>
      obtain ⟨hrecvs, hsends, hsending, hguards⟩ := ih hposted'
      refine ⟨hrecvs, hsends, ?_, forall_mem_append_singleton hguards (.inl rfl)⟩
      rw [World.weigh_spawn, hsending]
      cases call with
      | sendMessage m => exact absurd (hposted'.symm.trans hok.1) Bool.false_ne_true
      | _ => rfl
    | connectEx hsocket =>
      obtain ⟨hrecvs, hsends, hsending, hguards⟩ := ih hposted'
      refine ⟨hrecvs, hsends, ?_, forall_mem_append_singleton hguards (.inl rfl)⟩
      rw [World.weigh_spawn, hsending]
      rfl
    | recvCompletion hpending hlength => simp [(ih hposted').recvs] at hpending
    | sendCompletion hpending hlength => simp [(ih hposted').sends] at hpending
    | connectCompletion hpending =>
      obtain ⟨hrecvs, hsends, hsending, hguards⟩ := ih hposted'
      refine ⟨hrecvs, hsends, ?_, forall_mem_append_singleton hguards (.inr rfl)⟩
      rw [World.weigh_spawn, hsending]
      rfl

structure Looping (w : World) : Prop where
  started : w.shared.receiveLoopStarted = true
  guarded : ∀ t ∈ w.threads, t.guard = none → tally Frame.arm t.frames = 0

theorem looping (hw : system.Reach (used outbound) w)
    (hdisc : w.shared.disconnectRequested = false) (hposted : w.shared.receivePosted = true) :
    Looping w := by
  refine Machine.invariant (m := machine)
    (I := fun w => w.shared.disconnectRequested = false → w.shared.receivePosted = true →
      Looping w) ?_ ?_ ?_ hw hdisc hposted
  · rintro s ⟨receiveBuffer, sendBuffer, socket, -, -, rfl⟩ _ hposted
    cases hposted
  · intro w tid choice t s' t' hreach ih hok hthread hrun hdisc' hposted'
    cases Thread.ran_of_run hrun with
    | @exec f rest hframes =>
      have hstep := f.steps_exec choice w.shared
      have hdisc := disconnectRequested_of_exec hdisc'
      rcases hstep.receivePosted with hsame | ⟨harm, hfs⟩
      · obtain ⟨hstarted, hguarded⟩ := ih hdisc (hsame ▸ hposted')
        refine ⟨hstep.receiveLoopStarted hstarted, forall_mem_set hguarded fun hguard => ?_⟩
        have hsum := hguarded t (List.mem_of_getElem? hthread) hguard
        rw [hframes, tally_cons] at hsum
        have hfs := hstep.arm_eq_zero (by omega) hstarted (loopOnly_of_used hok)
        rw [tally_append, hfs]
        omega
      · -- the first receive is posted: its token was the only one
        have hle : f.arm ≤ World.weigh w Frame.arm := World.weight_le_weigh hthread hframes
        have hbalance := arm_balance (hreach.mono fun _ _ => loopOnly_of_used) hdisc
        have hstarted : w.shared.receiveLoopStarted = true := by
          by_contra hnot
          simp only [Bool.not_eq_true] at hnot
          simp only [hnot, Bool.toNat_false] at hbalance
          omega
        simp only [hstarted, Bool.toNat_true] at hbalance
        have hweigh := World.weigh_exec Frame.arm hthread hframes (f.exec choice w.shared).1
          t.guard (f.exec choice w.shared).2
        refine ⟨hstep.receiveLoopStarted hstarted, fun u hu _ => ?_⟩
        exact tally_eq_zero.mp (show World.weigh _ Frame.arm = 0 by omega) u hu
    | release hframes hguard =>
      obtain ⟨hstarted, hguarded⟩ := ih hdisc' hposted'
      exact ⟨hstarted, forall_mem_set hguarded fun _ => Shared.tally_release rfl _⟩
  · intro w event s' t' hreach ih hok hspawn hdisc' hposted'
    cases Shared.arrived_of_arrive hspawn with
    | call call =>
      obtain ⟨hstarted, hguarded⟩ := ih hdisc' hposted'
      refine ⟨hstarted, forall_mem_append_singleton hguarded fun _ => ?_⟩
      cases call with
      | requestReceived => exact absurd hok.1 id
      | _ => rfl
    | connectEx hsocket =>
      obtain ⟨hstarted, hguarded⟩ := ih hdisc' hposted'
      exact ⟨hstarted, forall_mem_append_singleton hguarded fun _ => rfl⟩
    | _ =>
      obtain ⟨hstarted, hguarded⟩ := ih hdisc' hposted'
      exact ⟨hstarted, forall_mem_append_singleton hguarded (by simp)⟩

/-- In an outbound session only completion handlers touch the receive loop. -/
theorem outbound_guarded (hw : system.Reach (used true) w)
    (hdisc : w.shared.disconnectRequested = false) :
    ∀ t ∈ w.threads, t.guard = none → tally Frame.receiving t.frames = 0 := by
  refine Machine.invariant (m := machine)
    (I := fun w => w.shared.disconnectRequested = false →
      ∀ t ∈ w.threads, t.guard = none → tally Frame.receiving t.frames = 0) ?_ ?_ ?_ hw hdisc
  · simp
  · intro w tid choice t s' t' hreach ih hok hthread hrun hdisc'
    cases Thread.ran_of_run hrun with
    | @exec f rest hframes =>
      have hdisc := disconnectRequested_of_exec hdisc'
      apply forall_mem_set (ih hdisc)
      intro hguard
      have hsum := ih hdisc t (List.mem_of_getElem? hthread) hguard
      rw [hframes, tally_cons] at hsum
      have hended : f.ended = 0 := Nat.le_zero.mp
        ((ended_eq_zero hreach hdisc).2 ▸ World.weight_le_weigh hthread hframes)
      have hfs := (f.steps_exec choice w.shared).receiving_eq_zero (by omega) hended
      rw [tally_append, hfs]
      omega
    | release hframes hguard =>
      exact forall_mem_set (ih hdisc') fun _ => Shared.tally_release rfl _
  · intro w event s' t' hreach ih hok hspawn hdisc'
    cases Shared.arrived_of_arrive hspawn with
    | call call =>
      apply forall_mem_append_singleton (ih hdisc')
      intro _
      cases call with
      | startReceiveLoop => exact absurd rfl (hok.2 rfl)
      | requestReceived => exact absurd hok.1 id
      | _ => rfl
    | connectEx hsocket => exact forall_mem_append_singleton (ih hdisc') fun _ => rfl
    | _ => exact forall_mem_append_singleton (ih hdisc') (by simp)

theorem activated (hw : system.Reach ok w) (hdisc : w.shared.disconnectRequested = false) :
    ∀ t ∈ w.threads, t.guard = some .connect →
      0 < tally Frame.activating t.frames ∨ w.shared.receiveLoopStarted = true := by
  refine Machine.invariant (m := machine)
    (I := fun w => w.shared.disconnectRequested = false → ∀ t ∈ w.threads,
      t.guard = some .connect → 0 < tally Frame.activating t.frames ∨
        w.shared.receiveLoopStarted = true) ?_ ?_ ?_ hw hdisc
  · simp
  · intro w tid choice t s' t' hreach ih hok hthread hrun hdisc'
    cases Thread.ran_of_run hrun with
    | @exec f rest hframes =>
      have hstep := f.steps_exec choice w.shared
      have hih := ih (disconnectRequested_of_exec hdisc')
      have hstarted : ∀ u ∈ w.threads, u.guard = some .connect →
          0 < tally Frame.activating u.frames ∨
            (f.exec choice w.shared).1.receiveLoopStarted = true := fun u hu hguard =>
        (hih u hu hguard).imp_right hstep.receiveLoopStarted
      apply forall_mem_set hstarted
      intro hguard
      rw [tally_append]
      rcases Nat.eq_zero_or_pos f.activating with hzero | hpos
      · rcases hstarted t (List.mem_of_getElem? hthread) hguard with hmore | hdone
        · rw [hframes, tally_cons] at hmore
          exact .inl (by omega)
        · exact .inr hdone
      · exact (hstep.activating hpos hdisc').imp_left fun hmore => by omega
    | release hframes hguard => exact forall_mem_set (ih hdisc') (by simp)
  · intro w event s' t' hreach ih hok hspawn hdisc'
    cases Shared.arrived_of_arrive hspawn with
    | connectCompletion hpending =>
      exact forall_mem_append_singleton (ih hdisc') fun _ => .inl Nat.one_pos
    | _ => exact forall_mem_append_singleton (ih hdisc') (by simp)

theorem not_connect_of_inbound (hw : system.Reach (used false) w) :
    w.shared.connects = 0 ∧ w.weigh Frame.connecting = 0 ∧
      ∀ t ∈ w.threads, t.guard ≠ some .connect := by
  refine Machine.invariant (m := machine)
    (I := fun w => w.shared.connects = 0 ∧ World.weigh w Frame.connecting = 0 ∧
      ∀ t ∈ w.threads, t.guard ≠ some .connect) ?_ ?_ ?_ hw
  · rintro s ⟨receiveBuffer, sendBuffer, socket, -, -, rfl⟩
    exact ⟨rfl, rfl, by simp⟩
  · rintro w tid choice t s' t' hreach ⟨hconnects, hconnecting, hguards⟩ hok hthread hrun
    cases Thread.ran_of_run hrun with
    | @exec f rest hframes =>
      have hf : f.connecting = 0 :=
        Nat.le_zero.mp (hconnecting ▸ World.weight_le_weigh hthread hframes)
      obtain ⟨hsame, hfs⟩ := (f.steps_exec choice w.shared).connecting hf
      have hweigh := World.weigh_exec Frame.connecting hthread hframes
        (f.exec choice w.shared).1 t.guard (f.exec choice w.shared).2
      exact ⟨hsame.trans hconnects, by omega,
        forall_mem_set hguards (hguards t (List.mem_of_getElem? hthread))⟩
    | release hframes hguard =>
      refine ⟨hconnects, ?_, forall_mem_set hguards (by simp)⟩
      rw [World.weigh_release Frame.connecting hthread hframes, hconnecting,
        Shared.tally_release rfl]
  · rintro w event s' t' hreach ⟨hconnects, hconnecting, hguards⟩ hok hspawn
    cases Shared.arrived_of_arrive hspawn with
    | call call =>
      refine ⟨hconnects, ?_, forall_mem_append_singleton hguards (by simp)⟩
      rw [World.weigh_spawn, hconnecting]
      cases call <;> rfl
    | connectEx hsocket => exact absurd hok.1 Bool.false_ne_true
    | connectCompletion hpending => exact absurd hconnects hpending
    | _ =>
      refine ⟨hconnects, ?_, forall_mem_append_singleton hguards (by simp)⟩
      rw [World.weigh_spawn, hconnecting]
      rfl

/-- When the counter is one and the handler that it counts has only its guard
left to destroy, no other thread with frames is a handler. -/
theorem unguarded_of_last (hw : system.Reach ok w) (hone : w.shared.outstandingIoCount = 1)
    {t : Thread} (ht : t ∈ w.threads) (hframes : t.frames = []) (hguard : t.guard.isSome)
    {u : Thread} (hu : u ∈ w.threads) (hbusy : u.frames ≠ []) : u.guard = none := by
  have hcount := outstandingIoCount_eq hw
  have hless : tally (fun v : Thread => (v.guard.isSome && !v.frames.isEmpty).toNat) w.threads <
      tally (fun v : Thread => v.guard.isSome.toNat) w.threads := by
    refine tally_lt_tally (fun v _ => ?_) ht (by simp [hframes, hguard])
    cases v.guard.isSome <;> simp [Bool.toNat_le]
  rw [tally_eq_countP (fun v : Thread => v.guard.isSome)] at hless
  have hle : w.handlers ≤ 1 := by omega
  have hzero : tally (fun v : Thread => (v.guard.isSome && !v.frames.isEmpty).toNat)
      w.threads = 0 := by
    unfold World.handlers at hle
    omega
  have hvalue := tally_eq_zero.mp hzero u hu
  by_contra hsome
  have hsome : u.guard.isSome := Option.isSome_iff_ne_none.mpr hsome
  simp [hsome, hbusy] at hvalue

theorem disconnectRequested_of_last (hw : system.Reach (used outbound) w)
    (hone : w.shared.outstandingIoCount = 1) {t : Thread} (ht : t ∈ w.threads)
    (hframes : t.frames = []) {kind : IoKind} (hguard : t.guard = some kind) :
    w.shared.disconnectRequested = true := by
  by_contra hnot
  have hdisc : w.shared.disconnectRequested = false := by simpa using hnot
  have hsome : t.guard.isSome := by simp [hguard]
  have hcount := outstandingIoCount_eq hw
  have hhandler : 0 < w.handlers := List.countP_pos_iff.mpr ⟨t, ht, hsome⟩
  have hrecvs : w.shared.recvs.length = 0 := by
    unfold Shared.pending at hcount
    omega
  -- the receive loop has started, and no thread outside a handler can turn it
  have hloop : w.shared.receiveLoopStarted = true ∧
      ∀ u ∈ w.threads, u.guard = none → tally Frame.arm u.frames = 0 := by
    cases hposted : w.shared.receivePosted with
    | true =>
      obtain ⟨hstarted, hguarded⟩ := looping hw hdisc hposted
      exact ⟨hstarted, hguarded⟩
    | false =>
      have hconnect : t.guard = some .connect :=
        ((unposted hw hposted).guards t ht).resolve_left (by simp [hguard])
      cases outbound with
      | false => exact absurd hconnect ((not_connect_of_inbound hw).2.2 t ht)
      | true =>
        refine ⟨?_, fun u hu hnone => ?_⟩
        · exact (activated hw hdisc t ht hconnect).resolve_left (by simp [hframes])
        · exact Nat.le_zero.mp (outbound_guarded hw hdisc u hu hnone ▸
            tally_le_tally fun f _ => f.arm_le_receiving)
  have hbalance := arm_balance (hw.mono fun _ _ => loopOnly_of_used) hdisc
  simp only [hloop.1, Bool.toNat_true, hrecvs] at hbalance
  obtain ⟨u, hu, hpos⟩ := exists_of_tally_pos (show 0 < w.weigh Frame.arm by omega)
  have hbusy : u.frames ≠ [] := by
    intro hnil
    simp [hnil] at hpos
  have hnone := unguarded_of_last hw hone ht hframes hsome hu hbusy
  have hzero := hloop.2 u hu hnone
  omega

theorem committed_eq_zero_of_unguarded (hw : system.Reach ok w)
    (hnone : ∀ t ∈ w.threads, t.frames ≠ [] → t.guard = none) : w.weigh Frame.committed = 0 := by
  apply tally_eq_zero.mpr
  intro t ht
  rcases eq_or_ne t.frames [] with hnil | hbusy
  · rw [hnil, tally_nil]
  · exact Nat.le_zero.mp (handling_eq_zero hw t ht (hnone t ht hbusy) ▸
      tally_le_tally fun f _ => f.committed_le_handling)

theorem committed_eq_zero_of_none (hw : system.Reach ok w)
    (hcount : w.shared.outstandingIoCount = 0) : w.weigh Frame.committed = 0 := by
  apply committed_eq_zero_of_unguarded hw
  intro t ht _
  by_contra hsome
  have hone := one_le_of_handler hw ht (Option.isSome_iff_ne_none.mpr hsome)
  omega

structure Silenced (w : World) : Prop where
  disconnectRequested : w.shared.disconnectRequested = true
  committed : w.weigh Frame.committed = 0

def Firing (w : World) : Prop :=
  w.shared.onDisconnectedFired = true ∨ 0 < w.weigh Frame.nearFiring

theorem Silenced.exec (hw : system.Reach (used outbound) w) (ih : Firing w → Silenced w)
    {tid : Nat} {choice : Choice} {t : Thread} {f : Frame} {rest : List Frame}
    (hthread : w.threads[tid]? = some t) (hframes : t.frames = f :: rest)
    (hfiring : Firing ⟨(f.exec choice w.shared).1,
      w.threads.set tid ⟨t.guard, (f.exec choice w.shared).2 ++ rest⟩⟩) :
    Silenced ⟨(f.exec choice w.shared).1,
      w.threads.set tid ⟨t.guard, (f.exec choice w.shared).2 ++ rest⟩⟩ := by
  have hstep := f.steps_exec choice w.shared
  have hcommitted := World.weigh_exec Frame.committed hthread hframes (f.exec choice w.shared).1
    t.guard (f.exec choice w.shared).2
  by_cases hbefore : Firing w
  · obtain ⟨hdisc, hnone⟩ := ih hbefore
    have hf : f.committed = 0 := Nat.le_zero.mp (hnone ▸ World.weight_le_weigh hthread hframes)
    have hfs := hstep.committed_eq_zero hdisc hf
    exact ⟨hstep.disconnectRequested hdisc, by omega⟩
  · -- this step is the first on the way to firing: it has read a zero counter
    unfold Firing at hbefore
    rw [not_or, Nat.not_lt, Nat.le_zero] at hbefore
    have hf : f.nearFiring = 0 :=
      Nat.le_zero.mp (hbefore.2 ▸ World.weight_le_weigh hthread hframes)
    have hnear := World.weigh_exec Frame.nearFiring hthread hframes (f.exec choice w.shared).1
      t.guard (f.exec choice w.shared).2
    have hloaded : f.ended = 1 ∧ w.shared.outstandingIoCount = 0 ∧
        tally Frame.committed (f.exec choice w.shared).2 = 0 := by
      rcases hstep.nearFiring hf with hfs | hloaded
      · rcases hfiring with hfired | hpos
        · rcases hstep.fired_cases with hsame | ⟨rfl, -⟩
          · exact absurd (hsame ▸ hfired) hbefore.1
          · cases hf
        · omega
      · exact hloaded
    obtain ⟨hended, hcount, hfs⟩ := hloaded
    have hdisc : w.shared.disconnectRequested = true := by
      by_contra hnot
      have hle : f.ended ≤ w.weigh Frame.ended := World.weight_le_weigh hthread hframes
      have hzero := (ended_eq_zero hw (by simpa using hnot)).2
      omega
    have hnone := committed_eq_zero_of_none hw hcount
    exact ⟨hstep.disconnectRequested hdisc, by omega⟩

theorem silenced (hw : system.Reach (used outbound) w) : Firing w → Silenced w := by
  refine Machine.invariant (m := machine) (I := fun w => Firing w → Silenced w) ?_ ?_ ?_ hw
  · rintro s ⟨receiveBuffer, sendBuffer, socket, -, -, rfl⟩ hfiring
    rcases hfiring with hfired | hpos
    · cases hfired
    · cases hpos
  · intro w tid choice t s' t' hreach ih hok hthread hrun hfiring
    cases Thread.ran_of_run hrun with
    | exec hframes => exact Silenced.exec hreach ih hthread hframes hfiring
    | @release kind hframes hguard =>
      have ht := List.mem_of_getElem? hthread
      have hcommitted := World.weigh_release Frame.committed hthread hframes w.shared.release.1
        none w.shared.release.2
      rw [Shared.tally_release rfl] at hcommitted
      by_cases hlast : w.shared.outstandingIoCount = 1
      · have hnone := committed_eq_zero_of_unguarded hreach fun u hu hbusy =>
          unguarded_of_last hreach hlast ht hframes (by simp [hguard]) hu hbusy
        have hdisc := disconnectRequested_of_last hreach hlast ht hframes hguard
        exact ⟨hdisc, by omega⟩
      · have hnear := World.weigh_release Frame.nearFiring hthread hframes w.shared.release.1
          none w.shared.release.2
        have hfs : w.shared.release.2 = [] := by simp [Shared.release, hlast]
        rw [hfs, tally_nil, Nat.add_zero] at hnear
        obtain ⟨hdisc, hnone⟩ := ih (hfiring.imp id fun hpos => by rwa [hfs, hnear] at hpos)
        exact ⟨hdisc, by omega⟩
  · intro w event s' t' hreach ih hok hspawn hfiring
    have hfired : s'.onDisconnectedFired = w.shared.onDisconnectedFired ∧
        s'.disconnectRequested = w.shared.disconnectRequested ∧
        tally Frame.nearFiring t'.frames = 0 ∧ tally Frame.committed t'.frames = 0 := by
      cases Shared.arrived_of_arrive hspawn with
      | call call => cases call <;> exact ⟨rfl, rfl, rfl, rfl⟩
      | _ => exact ⟨rfl, rfl, rfl, rfl⟩
    obtain ⟨hfired, hdisc, hnear, hcommitted⟩ := hfired
    have hbefore : Firing w := by
      apply hfiring.imp (fun h => hfired ▸ h)
      intro hpos
      rwa [World.weigh_spawn, hnear, Nat.add_zero] at hpos
    obtain ⟨hset, hnone⟩ := ih hbefore
    refine ⟨hdisc.trans hset, ?_⟩
    rw [World.weigh_spawn, hnone, hcommitted]

/-- No user callback stands after `OnDisconnected`. -/
def Separated (log : List Effect) : Prop :=
  log.Pairwise fun before after => before = .onDisconnected → after.isUserCallback = false

theorem separated (hw : system.Reach (used outbound) w) : Separated w.shared.log := by
  refine Machine.invariant (m := machine) (I := fun w => Separated w.shared.log) ?_ ?_ ?_ hw
  · rintro s ⟨receiveBuffer, sendBuffer, socket, -, -, rfl⟩
    exact .nil
  · intro w tid choice t s' t' hreach ih hok hthread hrun
    cases Thread.ran_of_run hrun with
    | @exec f rest hframes =>
      rcases (f.steps_exec choice w.shared).log with hsame | ⟨e, hlog, hcommits⟩
      · exact hsame ▸ ih
      · unfold Separated
        rw [hlog, List.pairwise_append]
        refine ⟨ih, List.pairwise_singleton .., fun a ha b hb hfirst => ?_⟩
        obtain rfl := List.mem_singleton.mp hb
        by_contra huser
        have hf := hcommits (by simpa using huser)
        have hfired := fired_of_onDisconnected hreach (hfirst ▸ ha)
        have hnone := (silenced hreach (.inl hfired)).committed
        have hle : f.committed ≤ World.weigh w Frame.committed :=
          World.weight_le_weigh hthread hframes
        omega
    | release hframes hguard => exact ih
  · intro w event s' t' hreach ih hok hspawn
    cases Shared.arrived_of_arrive hspawn <;> exact ih

theorem onConnected_bound (hw : system.Reach (used outbound) w) :
    w.shared.log.count .onConnected + w.shared.connects + w.weigh Frame.connectToken ≤
      w.shared.connectStarted.toNat := by
  refine Machine.invariant (m := machine) (I := fun w => w.shared.log.count .onConnected +
    w.shared.connects + World.weigh w Frame.connectToken ≤ w.shared.connectStarted.toNat)
    ?_ ?_ ?_ hw
  · rintro s ⟨receiveBuffer, sendBuffer, socket, -, -, rfl⟩
    exact Nat.zero_le _
  · intro w tid choice t s' t' hreach ih hok hthread hrun
    cases Thread.ran_of_run hrun with
    | @exec f rest hframes =>
      obtain ⟨hstarted, hless⟩ := (f.steps_exec choice w.shared).connectToken
      have hweigh := World.weigh_exec Frame.connectToken hthread hframes
        (f.exec choice w.shared).1 t.guard (f.exec choice w.shared).2
      simp only [hstarted]
      omega
    | release hframes hguard =>
      rw [World.weigh_release Frame.connectToken hthread hframes, Shared.tally_release rfl]
      exact ih
  · intro w event s' t' hreach ih hok hspawn
    rw [World.weigh_spawn]
    cases Shared.arrived_of_arrive hspawn with
    | call call => cases call <;> exact ih
    | connectEx hsocket =>
      have hfresh : w.shared.connectStarted = false := hok.2
      rw [hfresh] at ih
      simp only [tally_cons, tally_nil, Frame.connectToken, Bool.toNat_true]
      simp only [Bool.toNat_false] at ih
      omega
    | connectCompletion hpending =>
      simp only [tally_cons, tally_nil, Frame.connectToken]
      omega
    | _ => exact ih

/-- `OnConnected`, `OnPacketReceived` and `OnSent` neither start after
`OnDisconnected` nor run beside it, and `OnConnected` runs at most once. -/
theorem callbacks_before_onDisconnected {w : World} (hw : system.Reach (used outbound) w) :
    Separated w.shared.log ∧
      (.onDisconnected ∈ w.shared.log → w.weigh Frame.userCallback = 0) ∧
      w.shared.log.count .onConnected ≤ 1 := by
  refine ⟨separated hw, fun hmem => ?_, ?_⟩
  · have hfired := fired_of_onDisconnected hw hmem
    have hnone := (silenced hw (.inl hfired)).committed
    exact Nat.le_zero.mp (hnone ▸ World.weigh_le_weigh Frame.userCallback_le_committed w)
  · have hbound := onConnected_bound hw
    have hstarted : w.shared.connectStarted.toNat ≤ 1 := Bool.toNat_le _
    omega

end

/-- A connect is posted and completes, its receive loop starts, the session is
disconnected, and the failed receive fires. -/
def outboundRun : List Label :=
  .spawn .connectEx :: Label.goes 0 3 ++ .spawn (.connectCompletion true) :: Label.goes 1 13 ++
    .spawn (.call .requestDisconnect) :: Label.goes 2 6 ++
    .spawn (.recvCompletion 0 false []) :: Label.goes 3 10

theorem callbacks_before_onDisconnected_of_outbound :
    ∃ w : World, system.runUnder (used true) (World.fresh 16 16) outboundRun = some w ∧
      .onDisconnected ∈ w.shared.log ∧ Separated w.shared.log ∧
      (.onDisconnected ∈ w.shared.log → w.weigh Frame.userCallback = 0) ∧
      w.shared.log.count .onConnected ≤ 1 := by
  obtain ⟨w, hrun, hmem⟩ := exists_of_runUnder system (used true) (World.fresh 16 16) outboundRun
    (fun w => w.shared.log == [.onConnected, .shutdown, .closed, .onDisconnected]) (by decide)
  rw [beq_iff_eq] at hmem
  exact ⟨w, hrun, by simp [hmem],
    callbacks_before_onDisconnected ((World.reach_fresh 16 16).of_runUnder hrun)⟩

end FastPort.Sessions
