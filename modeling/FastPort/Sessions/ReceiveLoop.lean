import FastPort.Sessions.Callbacks

/-! The receive loop. Its start makes one token, which is a receive pending in the
kernel, a completion handler at work, or a thread that posts the next receive;
while no disconnect is requested the token does not get lost. Whoever holds it is
alone with the receive ring's free room, so what was posted fits. -/
namespace FastPort.Sessions

open FastPort.Commons FastPort.Foundation.Circular FastPort.Foundation.Pool
open FastPort.Foundation.Tally FastPort.Foundation.Transition
open FastPort.Foundation.Transition.System

namespace Frame

def handlesReceive : Frame → Nat
  | handleRecvCompletion _ => 1
  | _ => 0

/-- A thread inside `RequestReceived` or `RequestRecv`. -/
def postsReceive : Frame → Nat
  | requestReceived _ | requestRecv _ _ => 1
  | _ => 0

theorem arm_eq (f : Frame) : f.arm = f.handlesReceive + f.postsReceive := by
  cases f <;> rfl

/-- The free room that a frame counts on: for the receive it is posting, or for
the bytes it is to commit. -/
def needed (s : Shared) : Frame → Nat
  | requestRecv _ .addOutstanding | requestRecv _ .wsaRecv =>
      (spanCells s.recvOverlapped.wsaBufs).length
  | handleRecvCompletion (.start _ bytesTransferred)
  | handleRecvCompletion (.commitWrite bytesTransferred) => bytesTransferred
  | _ => 0

theorem needed_eq_zero (s : Shared) (f : Frame) (hf : f.arm = 0) : f.needed s = 0 := by
  unfold needed
  split <;> simp_all [arm]

end Frame

/-- The free room that the pending receives count on. -/
def Shared.reserved (s : Shared) : Nat :=
  tally (fun buffers => (spanCells buffers).length) s.recvs

theorem length_spanCells_wsaBuf_le (spans : List Span) :
    (spanCells (spans.map wsaBuf)).length ≤ (spanCells spans).length := by
  induction spans with
  | nil => exact Nat.le_refl _
  | cons span spans ih =>
    have hspan : (wsaBuf span).length ≤ span.length := Nat.mod_le _ _
    simp only [List.map_cons, spanCells_cons, List.length_append, Span.length_cells]
    omega

namespace Frame

variable {choice : Choice} {s s' : Shared} {f : Frame} {fs : List Frame}

theorem Steps.arm_le (h : f.Steps choice s s' fs) (hcall : choice.call ≠ some .requestReceived) :
    s'.recvs.length + tally Frame.arm fs + s.receiveLoopStarted.toNat ≤
      s.recvs.length + f.arm + s'.receiveLoopStarted.toNat := by
  cases h
  all_goals simp_all [Frame.arm]

theorem Steps.roomy (h : f.Steps choice s s' fs) (hf : f.arm = 0) :
    s'.recvs = s.recvs ∧ s'.recvOverlapped = s.recvOverlapped ∧
      s.receiveBuffer.canWriteSize ≤ s'.receiveBuffer.canWriteSize ∧
      tally (Frame.needed s') fs = 0 := by
  cases h
  case popped hpop =>
    obtain ⟨-, -, hconsume⟩ := RingBuffer.pop_eq_some hpop
    obtain ⟨-, hbuffer, -, hsize⟩ := RingBuffer.consume_eq_some hconsume
    refine ⟨rfl, rfl, ?_, rfl⟩
    simp only [RingBuffer.canWriteSize, RingBuffer.capacity, hbuffer, hsize]
    omega
  case clearedReceive =>
    refine ⟨rfl, rfl, ?_, rfl⟩
    simp [RingBuffer.canWriteSize]
  all_goals simp_all [Frame.arm, Frame.needed]

theorem Steps.needed (h : f.Steps choice s s' fs) (hf : f.arm = 1) (hrecvs : s.recvs = [])
    (hroom : f.needed s ≤ s.receiveBuffer.canWriteSize) :
    s'.reserved + tally (Frame.needed s') fs ≤ s'.receiveBuffer.canWriteSize := by
  cases h
  case recvPrepared =>
    have hspans := length_spanCells_wsaBuf_le s.receiveBuffer.getWriteableBuffers.2
    rw [RingBuffer.spanCells_getWriteableBuffers, length_window] at hspans
    simpa [Frame.needed, Shared.reserved, hrecvs] using hspans
  all_goals simp_all [Frame.arm, Frame.needed, Shared.reserved, Span.cells]

theorem Steps.needed_eq_zero (h : f.Steps choice s s' fs) (hf : f.arm = 1) (hrecvs : s.recvs = [])
    (hzero : s.recvOverlapped.isZeroByte = true → f.needed s = 0)
    (hzero' : s'.recvOverlapped.isZeroByte = true) :
    s'.reserved + tally (Frame.needed s') fs = 0 := by
  cases h
  all_goals simp_all [Frame.arm, Frame.needed, Shared.reserved, Span.cells]

end Frame

variable {w : World}

theorem recvs_add_arm_le (hw : system.Reach loopOnly w) :
    w.shared.recvs.length + w.weigh Frame.arm ≤ w.shared.receiveLoopStarted.toNat := by
  refine Machine.invariant (m := machine) (I := fun w => w.shared.recvs.length +
    World.weigh w Frame.arm ≤ w.shared.receiveLoopStarted.toNat) ?_ ?_ ?_ hw
  · rintro s ⟨receiveBuffer, sendBuffer, socket, -, -, rfl⟩
    exact Nat.zero_le _
  · intro w tid choice t s' t' _ ih hok hthread hrun
    cases Thread.ran_of_run hrun with
    | @exec f rest hframes =>
      have hstep := (f.steps_exec choice w.shared).arm_le hok
      have hweigh := World.weigh_exec Frame.arm hthread hframes (f.exec choice w.shared).1 t.guard
        (f.exec choice w.shared).2
      simp only at ih ⊢
      omega
    | release hframes hguard =>
      rw [World.weigh_release Frame.arm hthread hframes, Shared.tally_release rfl]
      exact ih
  · intro w event s' t' _ ih hok hspawn
    rw [World.weigh_spawn]
    cases Shared.arrived_of_arrive hspawn with
    | call call =>
      cases call with
      | requestReceived => exact absurd rfl hok
      | _ => exact ih
    | recvCompletion hpending hlength =>
      obtain ⟨hlt, -⟩ := List.getElem?_eq_some_iff.mp hpending
      simp only [List.length_eraseIdx_of_lt hlt, tally_cons, tally_nil, Frame.arm]
      omega
    | _ => exact ih

/-- A step either leaves what the pending receives and the frames count on alone,
or is a step of the token, which then is all that counts on room. -/
theorem needed_cases (hw : system.Reach loopOnly w) {tid : Nat} {t : Thread} {f : Frame}
    {rest : List Frame} (hthread : w.threads[tid]? = some t) (hframes : t.frames = f :: rest) :
    f.arm = 0 ∨ (f.arm = 1 ∧ w.shared.recvs = [] ∧
      ∀ s, w.weigh (Frame.needed s) = f.needed s) := by
  have harm : f.arm ≤ w.weigh Frame.arm := World.weight_le_weigh hthread hframes
  have htoken := recvs_add_arm_le hw
  have hstarted : w.shared.receiveLoopStarted.toNat ≤ 1 := Bool.toNat_le _
  rcases Nat.eq_zero_or_pos f.arm with hzero | hpos
  · exact .inl hzero
  · refine .inr ⟨by omega, List.length_eq_zero_iff.mp (by omega), fun s => ?_⟩
    exact World.weigh_eq_of_alone (Frame.needed_eq_zero s) hthread hframes (by omega)

theorem weigh_needed_of_roomy {tid : Nat} {t : Thread} {f : Frame} {rest : List Frame}
    (hthread : w.threads[tid]? = some t) (hframes : t.frames = f :: rest) (hzero : f.arm = 0)
    (choice : Choice) :
    World.weigh ⟨(f.exec choice w.shared).1,
        w.threads.set tid ⟨t.guard, (f.exec choice w.shared).2 ++ rest⟩⟩
      (Frame.needed (f.exec choice w.shared).1) = w.weigh (Frame.needed w.shared) := by
  obtain ⟨-, hover, -, hfs⟩ := (f.steps_exec choice w.shared).roomy hzero
  have hweigh := World.weigh_exec (Frame.needed (f.exec choice w.shared).1) hthread hframes
    (f.exec choice w.shared).1 t.guard (f.exec choice w.shared).2
  have hsame : Frame.needed (f.exec choice w.shared).1 = Frame.needed w.shared := by
    funext g
    simp only [Frame.needed, hover]
  rw [hfs, Frame.needed_eq_zero _ f hzero] at hweigh
  simpa [hsame] using hweigh

structure Fits (w : World) : Prop where
  room : w.shared.reserved + w.weigh (Frame.needed w.shared) ≤ w.shared.receiveBuffer.canWriteSize
  zeroByte : w.shared.recvOverlapped.isZeroByte = true →
    w.shared.reserved + w.weigh (Frame.needed w.shared) = 0

theorem Fits.exec (hw : system.Reach loopOnly w) (h : Fits w) {tid : Nat} {choice : Choice}
    {t : Thread} {f : Frame} {rest : List Frame} (hthread : w.threads[tid]? = some t)
    (hframes : t.frames = f :: rest) :
    Fits ⟨(f.exec choice w.shared).1,
      w.threads.set tid ⟨t.guard, (f.exec choice w.shared).2 ++ rest⟩⟩ := by
  have hstep := f.steps_exec choice w.shared
  obtain ⟨hfits, hnone⟩ := h
  rcases needed_cases hw hthread hframes with hzero | ⟨hone, hrecvs, halone⟩
  · obtain ⟨hrecvs, hover, hroom, -⟩ := hstep.roomy hzero
    have hweigh := weigh_needed_of_roomy hthread hframes hzero choice
    constructor
    · simp only [hweigh, Shared.reserved, hrecvs]
      exact Nat.le_trans hfits hroom
    · intro hzeroByte
      simp only [hweigh, Shared.reserved, hrecvs]
      exact hnone (hover ▸ hzeroByte)
  · have hweigh := World.weigh_exec (Frame.needed (f.exec choice w.shared).1) hthread hframes
      (f.exec choice w.shared).1 t.guard (f.exec choice w.shared).2
    rw [halone] at hfits hnone hweigh
    constructor
    · have hfits' := hstep.needed hone hrecvs (by omega)
      simp only at hweigh ⊢
      omega
    · intro hzeroByte
      have hnone' := hstep.needed_eq_zero hone hrecvs (fun hset => by have := hnone hset; omega)
        hzeroByte
      simp only at hweigh ⊢
      omega

theorem fits (hw : system.Reach loopOnly w) : Fits w := by
  refine Machine.invariant (m := machine) (I := Fits) ?_ ?_ ?_ hw
  · rintro s ⟨receiveBuffer, sendBuffer, socket, -, -, rfl⟩
    exact ⟨Nat.zero_le _, fun _ => rfl⟩
  · intro w tid choice t s' t' hreach ih _ hthread hrun
    cases Thread.ran_of_run hrun with
    | exec hframes => exact ih.exec hreach hthread hframes
    | release hframes hguard =>
      constructor
      · rw [World.weigh_release _ hthread hframes, Shared.tally_release rfl]
        exact ih.room
      · rw [World.weigh_release _ hthread hframes, Shared.tally_release rfl]
        exact ih.zeroByte
  · intro w event s' t' _ ih _ hspawn
    obtain ⟨hroom, hnone⟩ := ih
    cases Shared.arrived_of_arrive hspawn with
    | call call =>
      constructor
      · rw [World.weigh_spawn]
        cases call <;> exact hroom
      · rw [World.weigh_spawn]
        cases call <;> exact hnone
    | @recvCompletion index success data buffers hpending hlength =>
      have herase := tally_eraseIdx (fun buffers => (spanCells buffers).length) hpending
      have hsame : Frame.needed { w.shared with
          recvs := w.shared.recvs.eraseIdx index
          receiveBuffer := w.shared.receiveBuffer.fill (spanCells buffers) data } =
          Frame.needed w.shared := rfl
      constructor
      · rw [World.weigh_spawn]
        simp only [Shared.reserved, hsame, RingBuffer.fill_canWriteSize, tally_cons, tally_nil,
          Frame.needed] at hroom ⊢
        omega
      · intro hzeroByte
        have hzero := hnone hzeroByte
        rw [World.weigh_spawn]
        simp only [Shared.reserved, hsame, tally_cons, tally_nil, Frame.needed] at hzero ⊢
        omega
    | _ =>
      constructor
      · rw [World.weigh_spawn]
        exact hroom
      · rw [World.weigh_spawn]
        exact hnone

def World.commits (w : World) (l : Label) : Option Nat :=
  match w.runs l with
  | some (.handleRecvCompletion (.commitWrite bytesTransferred)) => some bytesTransferred
  | _ => none

theorem World.commits_iff {w : World} {l : Label} {n : Nat} :
    w.commits l = some n ↔ w.runs l = some (.handleRecvCompletion (.commitWrite n)) := by
  unfold World.commits
  split <;> simp_all

/-- From the start of the receive loop to the disconnect, one receive is pending,
one completion handler is at work or one thread is posting, and never two of
these; what a completion commits always fits. -/
theorem receive_stays_armed {w : World} (hw : system.Reach loopOnly w) :
    (w.shared.disconnectRequested = false → w.shared.receiveLoopStarted = true →
      w.shared.recvs.length + w.weigh Frame.handlesReceive + w.weigh Frame.postsReceive = 1) ∧
    ∀ l n, w.commits l = some n → (w.shared.receiveBuffer.commitWrite n).isSome := by
  refine ⟨fun hdisc hstarted => ?_, fun l n hcommits => ?_⟩
  · have hbalance := arm_balance hw hdisc
    have hsum := World.weigh_add Frame.handlesReceive Frame.postsReceive w
    rw [← funext Frame.arm_eq] at hsum
    rw [hstarted, hsum] at hbalance
    simp only [Bool.toNat_true] at hbalance
    omega
  · have hle : Frame.needed w.shared (.handleRecvCompletion (.commitWrite n)) ≤
        w.weigh (Frame.needed w.shared) :=
      World.weight_le_of_runs (World.commits_iff.mp hcommits)
    simp only [Frame.needed] at hle
    have hfits := (fits hw).room
    obtain ⟨q, hq⟩ := RingBuffer.exists_commitWrite (q := w.shared.receiveBuffer) (n := n)
      (by omega)
    rw [hq]
    rfl

/-- A message arrives in the real receive that follows the zero-byte one. -/
def receivingRun : List Label :=
  .spawn (.call .startReceiveLoop) :: Label.goes 0 7 ++
    .spawn (.recvCompletion 0 true []) :: Label.goes 1 5 ++
    .spawn (.recvCompletion 0 true [4, 0, 7, 0]) :: Label.goes 2 1

theorem receive_stays_armed_of_message :
    ∃ w : World, system.runUnder loopOnly (World.fresh 16 16) receivingRun = some w ∧
      w.shared.recvs.length + w.weigh Frame.handlesReceive + w.weigh Frame.postsReceive = 1 ∧
      (w.shared.receiveBuffer.commitWrite 4).isSome := by
  obtain ⟨w, hrun, hat⟩ := exists_of_runUnder system loopOnly (World.fresh 16 16) receivingRun
    (fun w => !w.shared.disconnectRequested && w.shared.receiveLoopStarted &&
      w.commits (.go 2) == some 4) (by decide)
  simp only [Bool.and_eq_true, Bool.not_eq_true', beq_iff_eq] at hat
  obtain ⟨⟨hdisc, hstarted⟩, hcommits⟩ := hat
  have harmed := receive_stays_armed ((World.reach_fresh 16 16).of_runUnder hrun)
  exact ⟨w, hrun, harmed.1 hdisc hstarted, harmed.2 _ _ hcommits⟩

end FastPort.Sessions
