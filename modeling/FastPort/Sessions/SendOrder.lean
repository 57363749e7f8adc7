import FastPort.Sessions.SendStream

/-! When the send stream is right. The invariant of the send side survives every
step but one: the reading of the ring in `TryPostSendFromQueue` has to find no
earlier send under way and no reservation unwritten. The flag is meant to see to
the first; the handler of a completion gives it up before it removes the bytes
from the ring. Nothing sees to the second. -/
namespace FastPort.Sessions

open FastPort.Commons FastPort.Foundation.Circular FastPort.Foundation.Pool
open FastPort.Foundation.Tally FastPort.Foundation.Transition
open FastPort.Foundation.Transition.System

/-- The ring may be read: no send is under way, every reservation is written, and
the blocks fit the 32 bits of `WSABUF.len`. -/
structure Readable (w : World) : Prop where
  openSends : w.openSends = 0
  written : w.weigh Frame.writing = 0
  narrow : ∀ span ∈ w.shared.sendBuffer.getReadBuffers.2, span.length < 2 ^ 32

instance (w : World) : Decidable (Readable w) :=
  decidable_of_iff (w.openSends = 0 ∧ w.weigh Frame.writing = 0 ∧
      ∀ span ∈ w.shared.sendBuffer.getReadBuffers.2, span.length < 2 ^ 32)
    ⟨fun ⟨hopen, hwritten, hnarrow⟩ => ⟨hopen, hwritten, hnarrow⟩,
      fun h => ⟨h.openSends, h.written, h.narrow⟩⟩

def World.reads (w : World) (l : Label) : Bool :=
  match w.runs l with
  | some (.tryPostSendFromQueue .getReadBuffers) => true
  | _ => false

theorem World.reads_iff {w : World} {l : Label} :
    w.reads l = true ↔ w.runs l = some (.tryPostSendFromQueue .getReadBuffers) := by
  unfold World.reads
  split <;> simp_all

/-- The step hands the prepared buffers to `WSASend`. -/
def World.handsOver (w : World) (l : Label) : Bool :=
  match w.runs l with
  | some (.tryPostSendFromQueue .wsaSend) => true
  | _ => false

theorem World.handsOver_iff {w : World} {l : Label} :
    w.handsOver l = true ↔ w.runs l = some (.tryPostSendFromQueue .wsaSend) := by
  unfold World.handsOver
  split <;> simp_all

namespace Frame

variable {choice : Choice} {s s' : Shared} {f : Frame} {fs : List Frame}

theorem Steps.underWay (h : f.Steps choice s s' fs)
    (hread : f ≠ .tryPostSendFromQueue .getReadBuffers) :
    tally Frame.underWay fs + s'.sends.length ≤ f.underWay + s.sends.length := by
  cases h with
  | sendPosted => simp [Frame.underWay, Nat.add_comm]
  | _ => simp [Frame.underWay] at hread ⊢

/-- A frame that holds `m_SendInProgress` for a send it is to post, or that the
completion of a send has yet to give up. -/
def owner : Frame → Nat
  | tryPostSendFromQueue .getReadBuffers | tryPostSendFromQueue (.prepare _ _)
  | tryPostSendFromQueue .addOutstanding | tryPostSendFromQueue .wsaSend
  | tryPostSendFromQueue .undo | tryPostSendFromQueue .release => 1
  | handleSendCompletion (.start _ _) => 1
  | _ => 0

/-- A completion handler that has given up `m_SendInProgress` and not yet removed
the bytes that were sent. -/
def consuming : Frame → Nat
  | handleSendCompletion (.consume _) => 1
  | _ => 0

theorem underWay_le (f : Frame) : f.underWay ≤ f.owner + f.consuming := by
  unfold underWay
  split
  case h_4 => simp only [owner, consuming]; split <;> omega
  case h_5 => simp only [owner, consuming]; split <;> omega
  all_goals simp [owner]

theorem Steps.owner (h : f.Steps choice s s' fs) (hrelease : f ≠ .requestDisconnect .releaseSend)
    (howner : f.owner = 1 → s.sendInProgress = true) :
    (s'.sendInProgress.toNat - s'.sends.length : Int) + f.owner =
      s.sendInProgress.toNat - s.sends.length + tally Frame.owner fs := by
  cases h
  all_goals simp_all [Frame.owner]
  all_goals omega

def releasing : Frame → Nat
  | requestDisconnect .releaseRecv | requestDisconnect .releaseSend => 1
  | _ => 0

theorem Steps.releasing (h : f.Steps choice s s' fs) :
    tally Frame.releasing fs ≤ f.releasing ∨ s'.socket ≠ .opened := by
  cases h
  case disconnectWon hpc | recvDisconnectWon hpc | dropDisconnectWon hpc =>
    rcases hpc with ⟨rfl, hsocket⟩ | ⟨rfl, hsocket⟩ <;> simp [Frame.releasing, hsocket]
  all_goals simp [Frame.releasing]

theorem Steps.socket (h : f.Steps choice s s' fs) (hopen : s'.socket = .opened) :
    s.socket = .opened := by
  cases h
  all_goals first | exact hopen | cases hopen

theorem Steps.appends (h : f.Steps choice s s' fs) :
    (∃ more, s'.accepted = s.accepted ++ more) ∧ s'.transferred = s.transferred := by
  cases h
  case allocated m _ _ _ => exact ⟨⟨[m], rfl⟩, rfl⟩
  all_goals exact ⟨⟨[], (List.append_nil _).symm⟩, rfl⟩

/-- A thread past its test of the disconnect flag in `TryPostSendFromQueue`, up to
the call of `WSASend`. -/
def sendWindow : Frame → Nat
  | tryPostSendFromQueue .claim | tryPostSendFromQueue .getReadBuffers
  | tryPostSendFromQueue (.prepare _ _) | tryPostSendFromQueue .addOutstanding
  | tryPostSendFromQueue .wsaSend => 1
  | _ => 0

theorem Steps.sendWindow (h : f.Steps choice s s' fs) (hdisc : s.disconnectRequested = true) :
    tally Frame.sendWindow fs ≤ f.sendWindow := by
  cases h
  all_goals simp_all [Frame.sendWindow]

theorem Steps.firing_sendWindow (h : f.Steps choice s s' fs)
    (hfired : s.onDisconnectedFired = false) (hfired' : s'.onDisconnectedFired = true) :
    f = .tryFireOnDisconnected .claim ∧ tally Frame.sendWindow fs = 0 := by
  cases h
  all_goals simp_all [Frame.sendWindow]

end Frame

theorem World.weigh_released {weight : Frame → Nat} (h : weight .guardCheck = 0) {w : World}
    {tid : Nat} {t : Thread} (hthread : w.threads[tid]? = some t) (hframes : t.frames = []) :
    World.weigh ⟨w.shared.release.1, w.threads.set tid ⟨none, w.shared.release.2⟩⟩ weight =
      w.weigh weight := by
  rw [World.weigh_release weight hthread hframes, Shared.tally_release h]
  rfl

namespace Sending

variable {w : World} {consumed n : Nat}

/-- A sender's three writes: each stores its bytes in the next of the cells. -/
theorem exec_write (h : Sending w consumed n) {tid : Nat} {choice : Choice} {t : Thread}
    {f : Frame} {rest : List Frame} (hthread : w.threads[tid]? = some t)
    (hframes : t.frames = f :: rest) (hf : f.unwritten ≠ none) :
    Sending ⟨(f.exec choice w.shared).1,
      w.threads.set tid ⟨t.guard, (f.exec choice w.shared).2 ++ rest⟩⟩ consumed n := by
  cases hunwritten : f.unwritten with
  | none => exact absurd hunwritten hf
  | some reservation =>
    obtain ⟨buffers, off, data⟩ := reservation
    obtain ⟨q, hq, hfits, hcursor, hcells, hdata⟩ :=
      h.writers f (World.mem_frames hthread hframes) buffers off data hunwritten
    have hlen : (cellsFrom buffers off).length = data.length := by rw [hcells, length_window]
    unfold Frame.unwritten at hunwritten
    split at hunwritten
    · rename_i m spans
      cases hunwritten
      have hsplit : m.encode = m.sizeBytes ++ (m.idBytes ++ m.body) := List.append_assoc _ _ _
      have hle : m.sizeBytes.length ≤ m.encode.length := by simp [hsplit]
      obtain ⟨hring, hnext, hrest⟩ :=
        writeToBuffers_spec w.shared.sendBuffer buffers 0 m.sizeBytes hcursor (hlen ▸ hle)
      have htake : m.encode.take m.sizeBytes.length = m.sizeBytes := by rw [hsplit, List.take_left]
      have hdrop : m.encode.drop m.sizeBytes.length = m.idBytes ++ m.body := by
        rw [hsplit, List.drop_left]
      exact h.wrote hthread hframes rfl hle (htake.symm ▸ hring) rfl rfl rfl rfl rfl rfl rfl
        (.inr ⟨_, _, hdrop.symm ▸ rfl, hnext, hrest⟩)
    · rename_i m spans offset
      cases hunwritten
      have hle : m.idBytes.length ≤ (m.idBytes ++ m.body).length := by simp
      obtain ⟨hring, hnext, hrest⟩ :=
        writeToBuffers_spec w.shared.sendBuffer buffers off m.idBytes hcursor (hlen ▸ hle)
      have htake : (m.idBytes ++ m.body).take m.idBytes.length = m.idBytes := List.take_left
      have hdrop : (m.idBytes ++ m.body).drop m.idBytes.length = m.body := List.drop_left
      exact h.wrote hthread hframes rfl hle (htake.symm ▸ hring) rfl rfl rfl rfl rfl rfl rfl
        (.inr ⟨_, _, hdrop.symm ▸ rfl, hnext, hrest⟩)
    · rename_i m spans offset
      cases hunwritten
      have hring := writeBody_spec w.shared.sendBuffer buffers off m.body hcursor hlen.ge
      exact h.wrote hthread hframes rfl le_rfl
        ((List.take_length (l := m.body)).symm ▸ hring) rfl rfl rfl rfl rfl rfl rfl
        (.inl ⟨List.drop_length, rfl⟩)
    · cases hunwritten

/-- Every frame keeps the send side in order, if the ring is read when it may be
and not cleared. -/
theorem exec (h : Sending w consumed n) {tid : Nat} {choice : Choice} {t : Thread}
    {f : Frame} {rest : List Frame} (hthread : w.threads[tid]? = some t)
    (hframes : t.frames = f :: rest) (hone : w.openSends ≤ 1)
    (hclear : f ≠ .tryFireOnDisconnected .clearSend)
    (hread : f = .tryPostSendFromQueue .getReadBuffers → Readable w) :
    ∃ consumed' n', Sending ⟨(f.exec choice w.shared).1,
      w.threads.set tid ⟨t.guard, (f.exec choice w.shared).2 ++ rest⟩⟩ consumed' n' := by
  by_cases htouch : f.touches = false
  · exact ⟨consumed, n, h.exec_untouched hthread hframes htouch⟩
  by_cases hwriter : f.unwritten = none
  swap
  · exact ⟨consumed, n, h.exec_write hthread hframes hwriter⟩
  have hsteps := f.steps_exec choice w.shared
  generalize (f.exec choice w.shared).1 = s' at hsteps ⊢
  generalize (f.exec choice w.shared).2 = fs at hsteps ⊢
  cases hsteps
  case allocateFailed =>
    exact ⟨_, _, h.exec_like hthread hframes rfl rfl rfl rfl rfl rfl (.inl rfl) rfl⟩
  case allocated hroom =>
    exact ⟨_, _, h.allocated hthread hframes hroom rfl rfl rfl rfl⟩
  case nothingToSend =>
    exact ⟨_, _, h.exec_like hthread hframes rfl rfl rfl rfl rfl rfl (.inl rfl) rfl⟩
  case gotReadBuffers =>
    obtain ⟨hopen, hwritten, hnarrow⟩ := hread rfl
    exact ⟨_, _, h.read hthread hframes ⟨rfl, rfl, rfl⟩ hopen hwritten hnarrow⟩
  case sendNoSocket =>
    exact ⟨_, _, h.prepared hthread hframes rfl rfl rfl rfl rfl rfl rfl rfl rfl rfl nofun⟩
  case sendPrepared =>
    refine ⟨_, _, h.prepared hthread hframes rfl rfl rfl rfl rfl rfl rfl rfl rfl rfl ?_⟩
    intro spans hspans
    exact (Option.some.inj hspans).symm
  case sendAdded =>
    exact ⟨_, _, h.exec_like hthread hframes rfl rfl rfl rfl rfl rfl (.inr rfl) rfl⟩
  case sendPosted => exact ⟨_, _, h.passed hthread hframes⟩
  case sendFailed =>
    exact ⟨_, _, h.exec_like hthread hframes rfl rfl rfl rfl rfl rfl (.inl rfl) rfl⟩
  case sendCompletedBadly =>
    exact ⟨_, _, h.exec_like hthread hframes rfl rfl rfl rfl rfl rfl (.inl rfl) rfl⟩
  case sendCompleted =>
    exact ⟨_, _, h.exec_like hthread hframes rfl rfl rfl rfl rfl rfl (.inl rfl) rfl⟩
  case consumed bytes =>
    by_cases hpos : bytes = 0
    · subst hpos
      have hring : (w.shared.sendBuffer.consume 0).getD w.shared.sendBuffer =
          w.shared.sendBuffer := by
        rw [RingBuffer.consume_zero, Option.getD_some]
      exact ⟨_, _, h.exec_like hthread hframes hring rfl rfl rfl rfl rfl (.inl rfl) rfl⟩
    · have hle := (h.drains _ (World.mem_frames hthread hframes)).trans h.bound
      obtain ⟨q, hq⟩ : ∃ q, w.shared.sendBuffer.consume bytes = some q := by
        apply Option.ne_none_iff_exists'.mp
        intro hnone
        exact absurd (RingBuffer.consume_eq_none.mp hnone) (Nat.not_lt_of_le hle)
      rw [hq, Option.getD_some]
      exact ⟨_, _, h.consume hthread hframes hpos hone hq rfl rfl rfl⟩
  case clearedSend => exact absurd rfl hclear
  all_goals first | exact absurd rfl htouch | simp [Frame.unwritten] at hwriter

theorem spawn (h : Sending w consumed n) (hone : w.openSends ≤ 1) {event : Event} {s' : Shared}
    {t' : Thread} (harrived : w.shared.Arrived event s' t') :
    Sending ⟨s', w.threads ++ [t']⟩ consumed n := by
  cases harrived with
  | sendCompletion hpending hlength => exact h.completed hone hpending hlength rfl rfl rfl rfl rfl
  | call call =>
    refine h.congr rfl rfl rfl (fun _ => .inl) ?_ ?_ ?_
    · rw [World.weigh_spawn]
      cases call <;> rfl
    · intro c
      rw [World.weigh_spawn]
      cases call <;> rfl
    · intro g hg
      rcases World.mem_frames_spawn hg with hnew | hold
      · obtain rfl := List.mem_singleton.mp hnew
        left
        cases call <;> exact ⟨rfl, rfl, rfl⟩
      · exact .inr ⟨g, hold, rfl, .inr rfl, rfl⟩
  | _ =>
    refine h.congr rfl rfl rfl (fun _ => .inl) ?_ ?_ ?_
    · rw [World.weigh_spawn]
      rfl
    · intro c
      rw [World.weigh_spawn]
      rfl
    · intro g hg
      rcases World.mem_frames_spawn hg with hnew | hold
      · obtain rfl := List.mem_singleton.mp hnew
        exact .inl ⟨rfl, rfl, rfl⟩
      · exact .inr ⟨g, hold, rfl, .inr rfl, rfl⟩

theorem release (h : Sending w consumed n) {tid : Nat} {t : Thread}
    (hthread : w.threads[tid]? = some t) (hframes : t.frames = []) :
    Sending ⟨w.shared.release.1, w.threads.set tid ⟨none, w.shared.release.2⟩⟩ consumed n := by
  refine h.congr rfl rfl rfl (fun _ => .inl) (World.weigh_released rfl hthread hframes)
    (fun c => World.weigh_released rfl hthread hframes) ?_
  intro g hg
  rcases World.mem_frames_release hg with hnew | hold
  · left
    unfold Shared.release at hnew
    split at hnew
    · obtain rfl := List.mem_singleton.mp hnew
      exact ⟨rfl, rfl, rfl⟩
    · cases hnew
  · exact .inr ⟨g, hold, rfl, .inr rfl, rfl⟩

end Sending

structure ReadingPhase (ok : World → Label → Prop) (P : Shared → Prop) : Prop where
  back : ∀ w l w', system.step w l = some w' → P w'.shared → P w.shared
  unfired : ∀ w, system.Reach ok w → P w.shared → w.shared.onDisconnectedFired = false
  reads : ∀ w l, system.Reach ok w → P w.shared → ok w l →
    w.runs l = some (.tryPostSendFromQueue .getReadBuffers) → Readable w

variable {ok : World → Label → Prop} {P : Shared → Prop} {w : World}

theorem firing_eq_zero (hw : system.Reach ok w) (hfired : w.shared.onDisconnectedFired = false) :
    w.weigh Frame.firing = 0 := by
  have hbalance := firing_balance hw
  simp only [hfired, Bool.toNat_false] at hbalance
  omega

theorem openSends_exec {tid : Nat} {choice : Choice} {t : Thread} {f : Frame}
    {rest : List Frame} (hthread : w.threads[tid]? = some t) (hframes : t.frames = f :: rest)
    (hone : w.openSends ≤ 1)
    (hread : f = .tryPostSendFromQueue .getReadBuffers → w.openSends = 0) :
    World.openSends ⟨(f.exec choice w.shared).1,
      w.threads.set tid ⟨t.guard, (f.exec choice w.shared).2 ++ rest⟩⟩ ≤ 1 := by
  have hweigh := World.weigh_exec Frame.underWay hthread hframes (f.exec choice w.shared).1
    t.guard (f.exec choice w.shared).2
  unfold World.openSends at hone hread ⊢
  by_cases hf : f = .tryPostSendFromQueue .getReadBuffers
  · subst hf
    have hopen := hread rfl
    have hsteps := Frame.steps_exec choice w.shared (.tryPostSendFromQueue .getReadBuffers)
    generalize (Frame.exec choice w.shared _).1 = s' at hsteps hweigh ⊢
    generalize (Frame.exec choice w.shared _).2 = fs at hsteps hweigh ⊢
    cases hsteps
    all_goals simp only [tally_cons, tally_nil, Frame.underWay] at hweigh ⊢
    all_goals omega
  · have hstep := (f.steps_exec choice w.shared).underWay hf
    simp only at hweigh ⊢
    omega

theorem openSends_spawn (hone : w.openSends ≤ 1) {event : Event} {s' : Shared} {t' : Thread}
    (harrived : w.shared.Arrived event s' t') : World.openSends ⟨s', w.threads ++ [t']⟩ ≤ 1 := by
  unfold World.openSends at hone ⊢
  rw [World.weigh_spawn]
  cases harrived with
  | call call => cases call <;> simpa [ApiCall.frame, Frame.underWay] using hone
  | sendCompletion hpending hlength =>
    obtain ⟨hlt, -⟩ := List.getElem?_eq_some_iff.mp hpending
    have hle : ∀ success bytes,
        Frame.underWay (.handleSendCompletion (.start success bytes)) ≤ 1 := by
      intro success bytes
      cases success
      · exact Nat.zero_le _
      · simp only [Frame.underWay]
        split <;> omega
    simp only [List.length_eraseIdx_of_lt hlt, tally_cons, tally_nil]
    have := hle
    grind
  | _ => simpa [Frame.underWay] using hone

theorem ReadingPhase.sending (h : ReadingPhase ok P) (hw : system.Reach ok w) (hP : P w.shared) :
    w.openSends ≤ 1 ∧ ∃ consumed n, Sending w consumed n := by
  refine hw.invariant (I := fun w => P w.shared → w.openSends ≤ 1 ∧
    ∃ consumed n, Sending w consumed n) ?_ ?_ hP
  · rintro ⟨s, threads⟩ ⟨⟨receiveBuffer, sendBuffer, socket, -, hempty, rfl⟩, hthreads⟩ _
    obtain rfl : threads = [] := hthreads
    exact ⟨Nat.zero_le _, 0, 0, Sending.initial hempty⟩
  · intro w l w' hreach ih hok hstep hP'
    have hP := h.back w l w' hstep hP'
    obtain ⟨hone, consumed, n, hsending⟩ := ih hP
    cases Machine.moved_of_step hstep with
    | run hthread hrun =>
      cases Thread.ran_of_run hrun with
      | @exec f rest hframes =>
        have hread : f = .tryPostSendFromQueue .getReadBuffers → Readable w := by
          rintro rfl
          exact h.reads w _ hreach hP hok (World.runs_eq hthread hframes)
        have hclear : f ≠ .tryFireOnDisconnected .clearSend := by
          rintro rfl
          have hle : Frame.firing (.tryFireOnDisconnected .clearSend) ≤ w.weigh Frame.firing :=
            World.weight_le_weigh hthread hframes
          rw [firing_eq_zero hreach (h.unfired w hreach hP)] at hle
          cases hle
        exact ⟨openSends_exec hthread hframes hone fun hf => (hread hf).openSends,
          hsending.exec hthread hframes hone hclear hread⟩
      | release hframes hguard =>
        refine ⟨?_, consumed, n, hsending.release hthread hframes⟩
        unfold World.openSends at hone ⊢
        rw [World.weigh_released rfl hthread hframes]
        exact hone
    | spawn hspawn =>
      have harrived := Shared.arrived_of_arrive hspawn
      exact ⟨openSends_spawn hone harrived, consumed, n, hsending.spawn hone harrived⟩

/-- The ring is read only when it may be, and `OnDisconnected` does not fire while
a thread is past its test of the disconnect flag in `TryPostSendFromQueue`. -/
def readsWritten (w : World) (l : Label) : Prop :=
  (w.reads l = true → Readable w) ∧ (w.fires l = true → w.weigh Frame.sendWindow = 0)

instance (w : World) (l : Label) : Decidable (readsWritten w l) :=
  inferInstanceAs (Decidable ((_ → _) ∧ (_ → _)))

theorem readingPhase_of_readsWritten :
    ReadingPhase readsWritten (fun s => s.onDisconnectedFired = false) where
  back := by
    intro w l w' hstep hfired'
    by_contra hfired
    have hstill := fired_of_step hstep (by simpa using hfired)
    simp [hstill] at hfired'
  unfired := fun _ _ hfired => hfired
  reads := fun _ _ _ _ hok hruns => hok.1 (World.reads_iff.mpr hruns)

/-- After the firing nobody is on the way to `WSASend`. -/
theorem sendWindow_eq_zero (hw : system.Reach readsWritten w) :
    w.shared.onDisconnectedFired = true → w.weigh Frame.sendWindow = 0 := by
  refine Machine.invariant (m := machine)
    (I := fun w => w.shared.onDisconnectedFired = true → World.weigh w Frame.sendWindow = 0)
    ?_ ?_ ?_ hw
  · rintro s ⟨receiveBuffer, sendBuffer, socket, -, -, rfl⟩ hfired
    cases hfired
  · intro w tid choice t s' t' hreach ih hok hthread hrun hfired'
    cases Thread.ran_of_run hrun with
    | @exec f rest hframes =>
      have hweigh := World.weigh_exec Frame.sendWindow hthread hframes (f.exec choice w.shared).1
        t.guard (f.exec choice w.shared).2
      cases hfired : w.shared.onDisconnectedFired with
      | true =>
        have hdisc := disconnectRequested_of_fired hreach hfired
        have hstep := (f.steps_exec choice w.shared).sendWindow hdisc
        have := ih hfired
        omega
      | false =>
        obtain ⟨rfl, hfs⟩ := (f.steps_exec choice w.shared).firing_sendWindow hfired hfired'
        have hzero := hok.2 (by simp [World.fires, World.runs_eq hthread hframes, hfired])
        omega
    | release hframes hguard =>
      rw [World.weigh_released rfl hthread hframes]
      exact ih hfired'
  · intro w event s' t' _ ih _ hspawn hfired'
    rw [World.weigh_spawn]
    cases Shared.arrived_of_arrive hspawn with
    | call call =>
      rw [ih hfired']
      cases call <;> rfl
    | _ => exact ih hfired'

/-- The range a thread hands to `WSASend`: no byte of it is reserved and
unwritten, and it continues the transferred bytes up to the end of a message. -/
structure Serialized (w : World) : Prop where
  written : ∀ c ∈ spanCells w.shared.sendOverlapped.wsaBufs, ∀ f ∈ w.frames, c ∉ f.reserved
  messages : ∃ j, w.shared.sendBuffer.read (spanCells w.shared.sendOverlapped.wsaBufs) =
    (encodings (w.shared.accepted.take j)).drop w.shared.transferred.length

/-- Every send that completes has transferred all it was posted with. -/
def transfersWhole (w : World) : Label → Prop
  | .spawn (.sendCompletion index true bytesTransferred) =>
      ∀ buffers, w.shared.sends[index]? = some buffers →
        bytesTransferred = (spanCells buffers).length
  | _ => True

theorem transferred_whole
    (hw : system.Reach (fun w l => readsWritten w l ∧ transfersWhole w l) w) :
    w.shared.onDisconnectedFired = false →
      ∃ i, i ≤ w.shared.accepted.length ∧
        w.shared.transferred.length = (encodings (w.shared.accepted.take i)).length := by
  refine hw.invariant (I := fun w => w.shared.onDisconnectedFired = false →
    ∃ i, i ≤ w.shared.accepted.length ∧
      w.shared.transferred.length = (encodings (w.shared.accepted.take i)).length) ?_ ?_
  · rintro ⟨s, threads⟩ ⟨⟨receiveBuffer, sendBuffer, socket, -, -, rfl⟩, -⟩ _
    exact ⟨0, le_rfl, rfl⟩
  · intro w l w' hreach ih hok hstep hfired'
    have hfired := readingPhase_of_readsWritten.back w l w' hstep hfired'
    obtain ⟨hone, consumed, n, hsending⟩ :=
      readingPhase_of_readsWritten.sending (hreach.mono fun _ _ h => h.1) hfired
    obtain ⟨i, hi, hboundary⟩ := ih hfired
    cases Machine.moved_of_step hstep with
    | run hthread hrun =>
      cases Thread.ran_of_run hrun with
      | @exec f rest hframes =>
        obtain ⟨⟨more, haccepted⟩, htransferred⟩ := (f.steps_exec _ w.shared).appends
        refine ⟨i, ?_, ?_⟩
        · change i ≤ (f.exec _ w.shared).1.accepted.length
          rw [haccepted, List.length_append]
          omega
        · change (f.exec _ w.shared).1.transferred.length =
            (encodings ((f.exec _ w.shared).1.accepted.take i)).length
          rw [haccepted, htransferred, List.take_append_of_le_length hi]
          exact hboundary
      | release hframes hguard => exact ⟨i, hi, hboundary⟩
    | spawn hspawn =>
      cases Shared.arrived_of_arrive hspawn with
      | @sendCompletion index success bytes buffers hpending hlength =>
        cases success with
        | false => exact ⟨i, hi, by simpa using hboundary⟩
        | true =>
          have hleading := hsending.posted buffers (List.mem_of_getElem? hpending)
          obtain ⟨j, hj, hend⟩ := hleading.boundary
          have hbytes := hok.2 buffers hpending
          have hread : ((w.shared.sendBuffer.read (spanCells buffers)).take bytes).length = n := by
            rw [hsending.read_leading hleading, hbytes, hleading.cells, length_window,
              List.length_take, List.length_take, List.length_drop]
            have hsize := hsending.size
            have hbound := hsending.bound
            omega
          have hconsumed := hsending.consumed_eq (World.draining_eq_zero_of_posted hone
            (List.length_pos_of_mem (List.mem_of_getElem? hpending)))
          refine ⟨j, hj, ?_⟩
          rw [← hend, hconsumed]
          simp only [if_true, List.length_append, hread]
      | _ => exact ⟨i, hi, hboundary⟩

/-- When the ring is read only when it may be, what is handed to `WSASend` is
serialized: the rest of some messages, and whole messages as long as all sends
transfer whole messages. -/
theorem handed_over_serialized {w : World} {l : Label} (hw : system.Reach readsWritten w)
    (hhands : w.handsOver l = true) :
    Serialized w ∧
      (system.Reach (fun w l => readsWritten w l ∧ transfersWhole w l) w →
        ∃ i j, w.shared.sendBuffer.read (spanCells w.shared.sendOverlapped.wsaBufs) =
          encodings ((w.shared.accepted.take j).drop i)) := by
  obtain ⟨tid, t, rest, hthread, hframes⟩ := exists_thread_of_runs (World.handsOver_iff.mp hhands)
  have hmem := World.mem_frames hthread hframes
  have hfired : w.shared.onDisconnectedFired = false := by
    by_contra hset
    have hzero := World.weigh_eq_zero.mp (sendWindow_eq_zero hw (by simpa using hset)) _ hmem
    cases hzero
  obtain ⟨hone, consumed, n, hsending⟩ := readingPhase_of_readsWritten.sending hw hfired
  have hleading := hsending.holders _ hmem _ rfl
  have hconsumed := hsending.consumed_eq
    (World.draining_eq_zero_of_holds hone hthread hframes rfl)
  obtain ⟨j, hend, hread⟩ := hsending.read_messages hleading
  rw [hconsumed] at hread
  refine ⟨⟨hsending.not_reserved hleading, j, hread⟩, fun hwhole => ?_⟩
  obtain ⟨i, hi, hstart⟩ := transferred_whole hwhole hfired
  exact ⟨i, j, by rw [hread, hstart, drop_encodings_take]⟩

/-- One sender runs up to its `WSASend`. -/
def sendingRun : List Label :=
  .spawn (.call (.sendMessage ⟨1, [7]⟩)) :: Label.goes 0 10

theorem handed_over_serialized_of_one_sender :
    ∃ w : World, system.runUnder readsWritten (World.fresh 16 16) sendingRun = some w ∧
      Serialized w := by
  obtain ⟨w, hrun, hhands⟩ := exists_of_runUnder system readsWritten (World.fresh 16 16)
    sendingRun (fun w => w.handsOver (.go 0)) (by decide)
  exact ⟨w, hrun, (handed_over_serialized ((World.reach_fresh 16 16).of_runUnder hrun) hhands).1⟩

/-- A sender has reserved its room when another runs up to its `WSASend`. -/
def overtakingRun : List Label :=
  .spawn (.call (.sendMessage ⟨1, []⟩)) :: Label.goes 0 2 ++
    .spawn (.call (.sendMessage ⟨2, []⟩)) :: Label.goes 1 10

theorem not_handed_over_serialized :
    ¬ ∀ (w : World) (l : Label), system.Reach free w → w.handsOver l = true →
      ∀ c ∈ spanCells w.shared.sendOverlapped.wsaBufs, ∀ f ∈ w.frames, c ∉ f.reserved := by
  intro hclaim
  obtain ⟨w, hrun, hunwritten⟩ := exists_of_runUnder system free (World.fresh 16 16) overtakingRun
    (fun w => w.handsOver (.go 1) && (spanCells w.shared.sendOverlapped.wsaBufs).any fun c =>
      w.frames.any fun f => decide (c ∈ f.reserved)) (by decide)
  simp only [Bool.and_eq_true, List.any_eq_true, decide_eq_true_eq] at hunwritten
  obtain ⟨hhands, c, hc, f, hf, hreserved⟩ := hunwritten
  exact hclaim w (.go 1) ((World.reach_fresh 16 16).of_runUnder hrun) hhands c hc f hf hreserved

theorem releasing_eq_zero (hw : system.Reach ok w) (hopen : w.shared.socket = .opened) :
    w.weigh Frame.releasing = 0 := by
  have hledger : (0 : Int) = w.weigh Frame.releasing := by
    refine frame_ledger (P := fun s => s.socket = .opened) (fun _ => 0) Frame.releasing rfl
      ?_ ?_ (fun _ hopen => ⟨hopen, rfl⟩) ?_ hw hopen
    · intros
      rfl
    · intro w tid choice t f rest _ _ hthread hframes ih hopen'
      have hstep := f.steps_exec choice w.shared
      have hopen := hstep.socket hopen'
      have hle : f.releasing ≤ w.weigh Frame.releasing := World.weight_le_weigh hthread hframes
      have hzero := ih hopen
      have hfs := hstep.releasing.resolve_right (not_not_intro hopen')
      exact ⟨hopen, by omega⟩
    · intro w event s' t' _ _ harrived hopen'
      cases harrived with
      | call call => cases call <;> exact ⟨hopen', rfl⟩
      | _ => exact ⟨hopen', rfl⟩
  omega

/-- The flags have not been given up by a disconnect. -/
def Shared.Guarded (s : Shared) : Prop :=
  s.disconnectRequested = false ∨ s.socket = .opened

theorem Frame.Steps.guarded {choice : Choice} {s s' : Shared} {f : Frame} {fs : List Frame}
    (h : f.Steps choice s s' fs) (hguarded : s'.Guarded) : s.Guarded := by
  refine hguarded.imp (fun hdisc' => ?_) h.socket
  by_contra hset
  have hstill := h.disconnectRequested (by simpa using hset)
  simp [hstill] at hdisc'

/-- Until the flags are given up by a disconnect, `m_SendInProgress` is owned by
one frame or by one posted send. -/
theorem owner_balance (hw : system.Reach ok w) (hguarded : w.shared.Guarded) :
    (w.shared.sendInProgress.toNat : Int) - w.shared.sends.length = w.weigh Frame.owner := by
  refine frame_ledger (P := Shared.Guarded) (fun s => s.sendInProgress.toNat - s.sends.length)
    Frame.owner rfl ?_ ?_ (fun _ hguarded => ⟨hguarded, rfl⟩) ?_ hw hguarded
  · intros
    rfl
  · intro w tid choice t f rest hreach _ hthread hframes ih hguarded'
    have hstep := f.steps_exec choice w.shared
    have hguarded := hstep.guarded hguarded'
    refine ⟨hguarded, hstep.owner ?_ fun howner => ?_⟩
    · -- the flag is given up after the disconnect request, behind a closed socket
      rintro rfl
      have hmem := World.mem_frames hthread hframes
      rcases hguarded with hdisc | hopen
      · cases World.weigh_eq_zero.mp (ended_eq_zero hreach hdisc).2 _ hmem
      · cases World.weigh_eq_zero.mp (releasing_eq_zero hreach hopen) _ hmem
    · have hbalance := ih hguarded
      have hle : f.owner ≤ w.weigh Frame.owner := World.weight_le_weigh hthread hframes
      by_contra hfree
      simp only [Bool.eq_false_iff.mpr hfree, Bool.toNat_false] at hbalance
      omega
  · intro w event s' t' _ _ harrived hguarded'
    cases harrived with
    | call call => cases call <;> exact ⟨hguarded', by simp [ApiCall.frame, Frame.owner]⟩
    | sendCompletion hpending hlength =>
      obtain ⟨hlt, -⟩ := List.getElem?_eq_some_iff.mp hpending
      refine ⟨hguarded', ?_⟩
      simp only [tally_cons, tally_nil, Frame.owner, List.length_eraseIdx_of_lt hlt]
      omega
    | _ => exact ⟨hguarded', by simp [Frame.owner]⟩

/-- A sender that has reserved room runs on to its last write by itself: each
message is appended in one go. -/
def appendsAtOnce (w : World) (l : Label) : Prop :=
  w.weigh Frame.writing = (w.runs l).elim 0 Frame.writing

instance (w : World) (l : Label) : Decidable (appendsAtOnce w l) :=
  inferInstanceAs (Decidable (_ = _))

/-- Messages are appended in one go, and the ring is read only while no handler is
between giving up the flag and removing what was sent. -/
def readsConsumed (w : World) (l : Label) : Prop :=
  appendsAtOnce w l ∧ (w.reads l = true → w.weigh Frame.consuming = 0 ∧
    ∀ span ∈ w.shared.sendBuffer.getReadBuffers.2, span.length < 2 ^ 32)

instance (w : World) (l : Label) : Decidable (readsConsumed w l) :=
  inferInstanceAs (Decidable (_ ∧ (_ → _ ∧ _)))

theorem readable_of_consumed (hw : system.Reach ok w)
    (hdisc : w.shared.disconnectRequested = false) {l : Label} (hok : readsConsumed w l)
    (hruns : w.runs l = some (.tryPostSendFromQueue .getReadBuffers)) : Readable w := by
  obtain ⟨hconsuming, hnarrow⟩ := hok.2 (World.reads_iff.mpr hruns)
  have hwritten : w.weigh Frame.writing = 0 := by
    have happend := hok.1
    rw [appendsAtOnce, hruns] at happend
    exact happend
  obtain ⟨tid, t, rest, hthread, hframes⟩ := exists_thread_of_runs hruns
  have hbalance := owner_balance hw (.inl hdisc)
  have hflag : w.shared.sendInProgress.toNat ≤ 1 := Bool.toNat_le _
  -- the reader owns the flag and has no send under way itself
  have hlt := World.weigh_lt_weigh Frame.underWay_le hthread hframes (by decide)
  have hsum := World.weigh_add Frame.owner Frame.consuming w
  refine ⟨?_, hwritten, hnarrow⟩
  unfold World.openSends
  omega

theorem readingPhase_of_readsConsumed :
    ReadingPhase readsConsumed (fun s => s.disconnectRequested = false) where
  back := fun _ _ _ => disconnectRequested_of_step
  unfired := fun _ hw hdisc => (ended_eq_zero hw hdisc).1
  reads := fun _ _ hw hdisc hok hruns => readable_of_consumed hw hdisc hok hruns

/-- The step removes sent bytes from the ring. -/
def World.consumes (w : World) (l : Label) : Option Nat :=
  match w.runs l with
  | some (.handleSendCompletion (.consume bytesTransferred)) => some bytesTransferred
  | _ => none

theorem World.consumes_iff {w : World} {l : Label} {n : Nat} :
    w.consumes l = some n ↔ w.runs l = some (.handleSendCompletion (.consume n)) := by
  unfold World.consumes
  split <;> simp_all

/-- When no thread reads the ring between the release of the flag and the removal
of what was sent, every byte is sent once and in order, and every removal succeeds. -/
theorem sends_once_in_order {w : World} (hw : system.Reach readsConsumed w)
    (hdisc : w.shared.disconnectRequested = false) :
    w.shared.transferred <+: encodings w.shared.accepted ∧
      ∀ l n, w.consumes l = some n → (w.shared.sendBuffer.consume n).isSome := by
  obtain ⟨-, consumed, n, hsending⟩ := readingPhase_of_readsConsumed.sending hw hdisc
  refine ⟨hsending.sent, fun l bytes hconsumes => ?_⟩
  obtain ⟨tid, t, rest, hthread, hframes⟩ :=
    exists_thread_of_runs (World.consumes_iff.mp hconsumes)
  have hle := (hsending.drains _ (World.mem_frames hthread hframes)).trans hsending.bound
  rw [Option.isSome_iff_ne_none]
  intro hnone
  exact absurd (RingBuffer.consume_eq_none.mp hnone) (Nat.not_lt_of_le hle)

/-- A message is sent in two parts. -/
def partsRun : List Label :=
  .spawn (.call (.sendMessage ⟨1, [7, 8]⟩)) :: Label.goes 0 11 ++
    .spawn (.sendCompletion 0 true 5) :: Label.goes 1 15 ++
    [.spawn (.sendCompletion 0 true 1)]

theorem sends_once_in_order_of_parts :
    ∃ w : World, system.runUnder readsConsumed (World.fresh 16 16) partsRun = some w ∧
      w.shared.transferred = encodings w.shared.accepted ∧
      w.shared.transferred <+: encodings w.shared.accepted := by
  obtain ⟨w, hrun, hsent⟩ := exists_of_runUnder system readsConsumed (World.fresh 16 16) partsRun
    (fun w => !w.shared.disconnectRequested &&
      decide (w.shared.transferred = encodings w.shared.accepted)) (by decide)
  simp only [Bool.and_eq_true, Bool.not_eq_true', decide_eq_true_eq] at hsent
  exact ⟨w, hrun, hsent.2,
    (sends_once_in_order ((World.reach_fresh 16 16).of_runUnder hrun) hsent.1).1⟩

/-- A completion has given up the flag and not yet removed the bytes of the first
message when a second sender reads the ring: the first message is sent twice. -/
def repeatingRun : List Label :=
  .spawn (.call (.sendMessage ⟨1, []⟩)) :: Label.goes 0 11 ++
    .spawn (.sendCompletion 0 true 4) :: Label.goes 1 1 ++
    .spawn (.call (.sendMessage ⟨2, []⟩)) :: Label.goes 2 11 ++
    [.spawn (.sendCompletion 0 true 8)]

theorem not_sends_once_in_order :
    ¬ ∀ w : World, system.Reach appendsAtOnce w → w.shared.disconnectRequested = false →
      w.shared.transferred <+: encodings w.shared.accepted := by
  intro hclaim
  obtain ⟨w, hrun, htwice⟩ := exists_of_runUnder system appendsAtOnce (World.fresh 16 16)
    repeatingRun (fun w => !w.shared.disconnectRequested &&
      !(w.shared.transferred.isPrefixOf (encodings w.shared.accepted))) (by decide)
  simp only [Bool.and_eq_true, Bool.not_eq_true'] at htwice
  have hprefix := hclaim w ((World.reach_fresh 16 16).of_runUnder hrun) htwice.1
  rw [← List.isPrefixOf_iff_prefix, htwice.2] at hprefix
  cases hprefix

end FastPort.Sessions
