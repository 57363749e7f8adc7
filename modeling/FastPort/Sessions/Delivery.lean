import FastPort.Sessions.Verdict
import FastPort.Sessions.WellBehaved

/-! What an `IOSession` delivers of the stream it is fed, in every run: posts may fail,
user code may call what it likes, and the session may be disconnected at any step. The
packets that were delivered are the first packets of the stream. -/
namespace FastPort.Sessions.Delivery

open FastPort.Commons FastPort.Core FastPort.Core.PacketFramer FastPort.Foundation.Circular
open FastPort.Foundation.Feed FastPort.Foundation.Framing FastPort.Foundation.Pool
open FastPort.Foundation.Stack FastPort.Foundation.Tally FastPort.Foundation.Transition
open WellBehaved (Describes keepsOrder)

/-- The packets that the framer makes of a stream. -/
def decoded (stream : List Byte) : List Packet :=
  (decoder.drain stream).1.map Packet.ofRaw

theorem decoded_front {taken stream : List Byte} (h : taken <+: stream) :
    decoded taken <+: decoded stream := by
  obtain ⟨more, rfl⟩ := h
  simp [decoded, decoder.drain_append taken more]

section

variable {stream taken : List Byte} {s s' : Shared} {f : Frame} {fs : List Frame}
variable {choice : Choice}

/-- The loop has delivered `packets s.log`, has `held` in its hand, and is to go on with
the content of the ring. -/
def Cut (taken : List Byte) (s : Shared) (held : List Packet) : Prop :=
  decoder.Cuts Packet.ofRaw taken (packets s.log ++ held) s.receiveBuffer.content

def Arriving (taken : List Byte) (s : Shared) (n : Nat) : Prop :=
  ∃ old data, taken = old ++ data ∧ data.length = n ∧ n ≤ s.receiveBuffer.canWriteSize ∧
    gather s.receiveBuffer.buffer (window s.receiveBuffer.capacity
      (s.receiveBuffer.tail + s.receiveBuffer.size) n) = data ∧ Cut old s []

/-- What holds while the frame has the token of the receive path. -/
def Stage (taken : List Byte) (s : Shared) : Frame → Prop
  | .requestRecv _ .addOutstanding | .requestRecv _ .wsaRecv =>
      Cut taken s [] ∧ Describes s s.recvOverlapped.wsaBufs
  | .handleRecvCompletion (.start success n) =>
      (success = true → Arriving taken s n) ∧ (success = false → Cut taken s [])
  | .handleRecvCompletion (.commitWrite n) => Arriving taken s n
  | .readReceivedBuffers pc => Cut taken s pc.taken ∧
      (∀ n, pc = .peek n → n = s.receiveBuffer.size ∧ getHeaderSize ≤ n) ∧
      ∀ n, pc = .pop n → nextFrame s.receiveBuffer.content = .frame n
  | _ => Cut taken s []

structure Idle (taken : List Byte) (s : Shared) : Prop where
  cut : Cut taken s []
  described : ∀ buffers ∈ s.recvs, Describes s buffers

theorem Cut.congr {held : List Packet} (h : Cut taken s held)
    (hbuffer : s'.receiveBuffer = s.receiveBuffer) (hlog : packets s'.log = packets s.log) :
    Cut taken s' held := by
  unfold Cut at h ⊢
  rwa [hbuffer, hlog]

theorem Cut.delivered {held : List Packet} (h : Cut taken s held) :
    packets s.log ++ held <+: decoded taken := by
  unfold decoded
  rw [← h.frames]
  exact List.prefix_append _ _

theorem Arriving.congr {n : Nat} (h : Arriving taken s n)
    (hbuffer : s'.receiveBuffer = s.receiveBuffer) (hlog : packets s'.log = packets s.log) :
    Arriving taken s' n := by
  obtain ⟨old, data, htaken, hlength, hroom, hstored, hcut⟩ := h
  exact ⟨old, data, htaken, hlength, by rw [hbuffer]; exact hroom, by rw [hbuffer]; exact hstored,
    hcut.congr hbuffer hlog⟩

theorem Arriving.commit {n : Nat} {q : CircleBufferQueue} (h : Arriving taken s n)
    (hq : s.receiveBuffer.commitWrite n = some q) : Cut taken { s with receiveBuffer := q } [] := by
  obtain ⟨old, data, rfl, -, -, hstored, hcut⟩ := h
  have hcontent := RingBuffer.content_commitWrite hq
  rw [hstored] at hcontent
  unfold Cut
  rw [hcontent]
  exact hcut.append data

theorem Idle.congr (h : Idle taken s) (hbuffer : s'.receiveBuffer = s.receiveBuffer)
    (hrecvs : s'.recvs = s.recvs) (hlog : packets s'.log = packets s.log) : Idle taken s' where
  cut := h.cut.congr hbuffer hlog
  described := by
    rw [hrecvs]
    exact fun buffers hbuffers => (h.described buffers hbuffers).congr hbuffer

theorem Stage.congr (h : Stage taken s f) (hbuffer : s'.receiveBuffer = s.receiveBuffer)
    (hover : s'.recvOverlapped = s.recvOverlapped) (hlog : packets s'.log = packets s.log) :
    Stage taken s' f := by
  have hcut : Cut taken s [] → Cut taken s' [] := fun h => h.congr hbuffer hlog
  unfold Stage at h ⊢
  split at h
  · exact ⟨hcut h.1, hover ▸ h.2.congr hbuffer⟩
  · exact ⟨hcut h.1, hover ▸ h.2.congr hbuffer⟩
  · exact ⟨fun hsuccess => (h.1 hsuccess).congr hbuffer hlog, fun hfailed => hcut (h.2 hfailed)⟩
  · exact h.congr hbuffer hlog
  · exact ⟨h.1.congr hbuffer hlog, hbuffer ▸ h.2⟩
  · exact hcut h

theorem Stage.read {pc : ReadReceivedPc} (h : Stage taken s (.readReceivedBuffers pc))
    (hstep : (Frame.readReceivedBuffers pc).Steps choice s s' fs)
    (hdisc' : s'.disconnectRequested = false) (hrecvs : s.recvs = []) :
    Stacks.Settled WellBehaved.Read.token (Stage taken) (Idle taken) s' fs := by
  obtain ⟨hcut, hheader, hframe⟩ := h
  have hidle : Cut taken s [] → Idle taken s := fun hcut => ⟨hcut, by simp [hrecvs]⟩
  cases hstep with
  | readRefused hset | packetDropped hset => simp [hset] at hdisc'
  | readAllowed => exact .cons ⟨hcut, by simp, by simp⟩ Nat.one_pos rfl
  | headerMissing | frameIncomplete | frameInvalid => exact .of_idle (hidle hcut) rfl
  | headerReadable hlong =>
    refine .cons ⟨hcut, ?_, by simp⟩ Nat.one_pos rfl
    rintro n ⟨⟩
    exact ⟨rfl, hlong⟩
  | frameComplete hpeek hcomplete =>
    obtain ⟨rfl, hlong⟩ := hheader _ rfl
    obtain ⟨hpeek', hcheck⟩ := checkHeader_content hlong
    obtain rfl := Option.some.inj (hpeek.symm.trans hpeek')
    refine .cons ⟨hcut, by simp, ?_⟩ Nat.one_pos rfl
    rintro n ⟨⟩
    exact hcheck.symm.trans hcomplete
  | popFailed hpop =>
    have hle := decoder.frame_le _ _ (hframe _ rfl)
    rw [RingBuffer.length_content] at hle
    exact absurd (RingBuffer.pop_eq_none.mp hpop) (Nat.not_lt_of_le hle)
  | @popped n bytes q hpop =>
    obtain ⟨-, rfl, hconsume⟩ := RingBuffer.pop_eq_some hpop
    have hnext := Decoder.Cuts.frame hcut (hframe _ rfl)
    rw [← RingBuffer.content_consume hconsume] at hnext
    refine .cons ⟨?_, by simp, by simp⟩ Nat.one_pos rfl
    simpa [Cut, ReadReceivedPc.taken] using hnext
  | packetKept => exact .cons ⟨hcut, by simp, by simp⟩ Nat.one_pos rfl
  | @delivered packet =>
    refine .skip (.cons ⟨?_, by simp, by simp⟩ Nat.one_pos rfl) rfl
    simpa [Cut, ReadReceivedPc.taken, packets] using hcut

theorem Stage.exec (h : Stage taken s f) (htoken : 0 < WellBehaved.Read.token f)
    (hstep : f.Steps choice s s' fs) (hdisc' : s'.disconnectRequested = false)
    (hrecvs : s.recvs = []) (hzero : s.recvOverlapped.isZeroByte = true → f.needed s = 0) :
    Stacks.Settled WellBehaved.Read.token (Stage taken) (Idle taken) s' fs := by
  have hidle : Cut taken s [] → Idle taken s := fun hcut => ⟨hcut, by simp [hrecvs]⟩
  cases f with
  | readReceivedBuffers pc => exact h.read hstep hdisc' hrecvs
  | requestReceived pc =>
    cases hstep with
    | receiveRefused hset | recvDisconnectLost hset => simp [hset] at hdisc'
    | recvDisconnectWon => simp at hdisc'
    | recvBusy => exact .of_idle (hidle h) rfl
    | receiveAllowed | recvClaimed | recvReleased =>
      exact .cons (Cut.congr h rfl rfl) Nat.one_pos rfl
  | requestRecv zeroByte pc =>
    cases hstep with
    | zeroByteNoSocket | recvNoSocket => exact .cons (Cut.congr h rfl rfl) Nat.one_pos rfl
    | zeroBytePrepared => exact .cons ⟨Cut.congr h rfl rfl, .inl rfl⟩ Nat.one_pos rfl
    | recvFull => exact .skip (.cons (Cut.congr h rfl rfl) Nat.one_pos rfl) rfl
    | recvPrepared => exact .cons ⟨Cut.congr h rfl rfl, .inr rfl⟩ Nat.one_pos rfl
    | recvAdded => exact .cons ⟨Cut.congr h.1 rfl rfl, h.2⟩ Nat.one_pos rfl
    | recvPosted =>
      refine .of_idle ⟨Cut.congr h.1 rfl rfl, ?_⟩ rfl
      intro buffers hbuffers
      rw [hrecvs] at hbuffers
      obtain rfl := List.mem_singleton.mp hbuffers
      exact h.2
    | recvFailed => exact .cons h.1 Nat.one_pos rfl
    | zeroByteUndone | recvUndone => exact .cons (Cut.congr h rfl rfl) Nat.one_pos rfl
  | handleRecvCompletion pc =>
    cases hstep with
    | recvCompletedBadly => exact .cons (h.2 rfl) Nat.one_pos rfl
    | zeroByteArrived | peerClosed =>
      obtain ⟨old, data, rfl, hlength, -, -, hcut⟩ := h.1 rfl
      obtain rfl := List.length_eq_zero_iff.mp hlength
      rw [← List.append_nil old] at hcut
      exact .cons hcut Nat.one_pos rfl
    | zeroByteCarried hset hn => exact absurd (hzero hset) hn
    | dataArrived => exact .cons (h.1 rfl) Nat.one_pos rfl
    | commitFailed hfull =>
      obtain ⟨-, -, -, -, hroom, -⟩ := h
      exact absurd (RingBuffer.commitWrite_eq_none.mp hfull) (Nat.not_lt_of_le hroom)
    | committed hroom => exact .cons (Arriving.commit h hroom) Nat.one_pos rfl
    | stamped | addedRxBytes | dropped => exact .cons (Cut.congr h rfl rfl) Nat.one_pos rfl
    | recvDropped hset | dropDisconnectLost hset => simp [hset] at hdisc'
    | dropDisconnectWon => simp at hdisc'
    | recvRead => exact .cons ⟨h, by simp, by simp⟩ Nat.one_pos rfl
    | rearmed => cases htoken
    | released => exact .of_idle (hidle h |>.congr rfl rfl rfl) rfl
  | _ => cases htoken

theorem unheld (h : f.Steps choice s s' fs) (hf : WellBehaved.Read.token f = 0) :
    packets s'.log = packets s.log := by
  cases h
  all_goals simp_all [WellBehaved.Read.token, packets]

theorem Idle.exec (h : Idle taken s) (hbuffer : s'.receiveBuffer = s.receiveBuffer)
    (hrecvs : s'.recvs = s.recvs) (hlog : packets s'.log = packets s.log)
    (hfs : ∀ g ∈ fs, 0 < WellBehaved.Read.token g → g = .requestReceived .checkDisconnect) :
    Stacks.Settled WellBehaved.Read.token (Stage taken) (Idle taken) s' fs := by
  have hidle := h.congr hbuffer hrecvs hlog
  refine ⟨fun g hg hpos => ?_, fun _ => hidle⟩
  obtain rfl := hfs g hg hpos
  exact hidle.cut

theorem Idle.complete (h : Idle taken s) {index : Nat} {buffers : List Span}
    {data : List Byte} (hpending : s.recvs[index]? = some buffers)
    (hlength : data.length ≤ (spanCells buffers).length)
    (hfirst : data.length ≤ (buffers.headD ⟨0, 0⟩).length ∨
      (s.receiveBuffer.getWriteableBuffers.2.headD ⟨0, 0⟩).length < 2 ^ 32) (success : Bool) :
    Stage (taken ++ Event.brings (.recvCompletion index success data))
      { s with
        recvs := s.recvs.eraseIdx index
        receiveBuffer := s.receiveBuffer.fill (spanCells buffers) data }
      (.handleRecvCompletion (.start success data.length)) := by
  obtain ⟨hroom, htake⟩ := (h.described buffers (List.mem_of_getElem? hpending)).take hlength hfirst
  obtain ⟨hcontent, hstored⟩ := RingBuffer.fill_front (spanCells buffers) hroom htake
  have hcut : Cut taken { s with
      recvs := s.recvs.eraseIdx index
      receiveBuffer := s.receiveBuffer.fill (spanCells buffers) data } [] := by
    have hold := h.cut
    unfold Cut at hold ⊢
    simpa only [hcontent] using hold
  refine ⟨?_, ?_⟩
  · rintro rfl
    exact ⟨taken, data, rfl, rfl, by simpa using hroom, by simpa using hstored, hcut⟩
  · rintro rfl
    simpa [Event.brings] using hcut

end

variable {stream : List Byte} {w : Fed World Byte}

theorem reach_loopOnly (hw : (fedSession stream).Reach keepsOrder w) :
    system.Reach loopOnly w.state :=
  reach_state (fun _ _ hok => hok.1) hw

theorem staged (hw : (fedSession stream).Reach keepsOrder w)
    (hdisc : w.state.shared.disconnectRequested = false) :
    Stacks.Staged WellBehaved.Read.token (Stage w.taken) (Idle w.taken) w.state.stacks := by
  refine fed_token (P := fun _ => True) rfl ?_ ?_ ?_ ?_ ?_ ?_ hw trivial hdisc
  · intro w hw _ _
    have hle := WellBehaved.recvs_add_token_le (reach_loopOnly hw)
    have hstarted : w.state.shared.receiveLoopStarted.toNat ≤ 1 := Bool.toNat_le _
    omega
  · rintro s ⟨receiveBuffer, sendBuffer, socket, hempty, -, rfl⟩
    have hcontent : receiveBuffer.content = [] :=
      List.length_eq_zero_iff.mp (RingBuffer.length_content.trans hempty)
    refine ⟨?_, by simp [Shared.initial]⟩
    simp only [Cut, Shared.initial, hcontent]
    exact Decoder.Cuts.nil
  · intro w taken tid choice t f rest hreach hok hthread hframes _ hdisc' hpos hstage
    have hloop := reach_loopOnly hreach
    have hle : WellBehaved.Read.token f ≤ w.weigh WellBehaved.Read.token :=
      World.weight_le_weigh hthread hframes
    have htoken := WellBehaved.recvs_add_token_le hloop
    have hstarted : w.shared.receiveLoopStarted.toNat ≤ 1 := Bool.toNat_le _
    have hnone : w.shared.recvs = [] := List.length_eq_zero_iff.mp (by simp only at htoken; omega)
    refine hstage.exec hpos (f.steps_exec choice w.shared) hdisc' hnone fun hzero => ?_
    have hneeded : f.needed w.shared ≤ w.weigh (Frame.needed w.shared) :=
      World.weight_le_weigh hthread hframes
    have hfits := (fits hloop).zeroByte hzero
    simp only at hfits
    omega
  · intro w taken tid choice t f rest hreach hok hthread hframes _ hdisc' hzero
    have hdisc := disconnectRequested_of_exec hdisc'
    have hended : f.ended = 0 := by
      have hle : f.ended ≤ w.weigh Frame.ended := World.weight_le_weigh hthread hframes
      have hnone := (ended_eq_zero (reach_loopOnly hreach) hdisc).2
      simp only at hnone
      omega
    have hstep := f.steps_exec choice w.shared
    have hlog := unheld hstep hzero
    obtain ⟨hbuffer, hover, hrecvs, hfs⟩ := WellBehaved.unheld hstep hzero hended hok.1
    exact ⟨fun g _ hg => hg.congr hbuffer hover hlog,
      fun hidle => hidle.exec hbuffer hrecvs hlog hfs⟩
  · exact fun taken s => ⟨fun g hg => hg.congr rfl rfl rfl, fun hidle => hidle.congr rfl rfl rfl⟩
  · intro w taken event s' t' hreach hok harrived _ _
    cases harrived with
    | call call =>
      simp only [Event.brings, List.append_nil]
      refine ⟨fun _ g _ hg => hg, fun _ hidle => .of_idle hidle ?_⟩
      cases call with
      | requestReceived => exact absurd rfl hok.1
      | _ => rfl
    | recvCompletion hpending hlength =>
      have htoken := WellBehaved.recvs_add_token_le (reach_loopOnly hreach)
      have hstarted : w.shared.receiveLoopStarted.toNat ≤ 1 := Bool.toNat_le _
      obtain ⟨hlt, -⟩ := List.getElem?_eq_some_iff.mp hpending
      simp only at htoken
      refine ⟨fun hsome => by omega, fun _ hidle => ?_⟩
      exact .cons (hidle.complete hpending hlength (hok.2 _ hpending) _) Nat.one_pos rfl
    | connectEx | sendCompletion | connectCompletion =>
      simp only [Event.brings, List.append_nil]
      exact ⟨fun _ g _ hg => hg.congr rfl rfl rfl,
        fun _ hidle => .of_idle (hidle.congr rfl rfl rfl) rfl⟩

def delivering : Frame → Nat
  | .readReceivedBuffers (.deliver _) => 1
  | _ => 0

structure Upheld (stream : List Byte) (w : World) : Prop where
  delivered : packets w.shared.log <+: decoded stream
  held : ∀ packet, .readReceivedBuffers (.deliver packet) ∈ w.frames →
    packets w.shared.log ++ [packet] <+: decoded stream

theorem Stage.delivered {taken : List Byte} {s : Shared} {f : Frame} (h : Stage taken s f) :
    packets s.log <+: decoded taken := by
  have hcut : ∀ {taken held}, Cut taken s held → packets s.log <+: decoded taken :=
    fun hcut => (List.prefix_append _ _).trans hcut.delivered
  have harriving : ∀ {n}, Arriving taken s n → packets s.log <+: decoded taken := by
    rintro n ⟨old, data, rfl, -, -, -, hold⟩
    exact (hcut hold).trans (decoded_front (List.prefix_append old data))
  unfold Stage at h
  split at h
  · exact hcut h.1
  · exact hcut h.1
  · rename_i success n
    cases success with
    | true => exact harriving (h.1 rfl)
    | false => exact hcut (h.2 rfl)
  · exact harriving h
  · exact hcut h.1
  · exact hcut h

theorem upheld_of_connected (hw : (fedSession stream).Reach keepsOrder w)
    (hdisc : w.state.shared.disconnectRequested = false) : Upheld stream w.state := by
  have hstaged := staged hw hdisc
  have hfront := decoded_front (taken_front hw)
  have hstage : ∀ f ∈ w.state.frames, 0 < WellBehaved.Read.token f →
      Stage w.taken w.state.shared f := by
    intro f hf hpos
    obtain ⟨t, ht, hft⟩ := List.mem_flatMap.mp hf
    exact hstaged.stage t.frames (List.mem_map_of_mem ht) f hft hpos
  constructor
  · rcases Nat.eq_zero_or_pos (w.state.weigh WellBehaved.Read.token) with hnone | hsome
    · rw [← World.weigh_stacks] at hnone
      exact ((List.prefix_append _ _).trans (hstaged.idle hnone).cut.delivered).trans hfront
    · obtain ⟨f, hf, hpos⟩ : ∃ f ∈ w.state.frames, 0 < WellBehaved.Read.token f := by
        by_contra hnone
        push Not at hnone
        have hzero := World.weigh_eq_zero.mpr fun f hf => Nat.le_zero.mp (hnone f hf)
        omega
      exact (hstage f hf hpos).delivered.trans hfront
  · intro packet hmem
    exact (hstage _ hmem Nat.one_pos).1.delivered.trans hfront

theorem disconnecting {choice : Choice} {s s' : Shared} {f : Frame} {fs : List Frame}
    (h : f.Steps choice s s' fs) (hdisc' : s'.disconnectRequested = true) :
    (packets s'.log = packets s.log ∨ ∃ packet, f = .readReceivedBuffers (.deliver packet) ∧
      packets s'.log = packets s.log ++ [packet]) ∧
    ∀ packet, .readReceivedBuffers (.deliver packet) ∉ fs := by
  cases h
  all_goals simp_all [packets]

theorem Upheld.exec (h : Upheld stream w.state) (hw : (fedSession stream).Reach keepsOrder w)
    {tid : Nat} {choice : Choice} {t : Thread} {f : Frame} {rest : List Frame}
    (hthread : w.state.threads[tid]? = some t) (hframes : t.frames = f :: rest)
    (hdisc' : (f.exec choice w.state.shared).1.disconnectRequested = true) :
    Upheld stream ⟨(f.exec choice w.state.shared).1,
      w.state.threads.set tid ⟨t.guard, (f.exec choice w.state.shared).2 ++ rest⟩⟩ := by
  obtain ⟨hlog, hnone⟩ := disconnecting (f.steps_exec choice w.state.shared) hdisc'
  constructor
  · rcases hlog with hsame | ⟨packet, rfl, hmore⟩
    · simp only [hsame]
      exact h.delivered
    · simp only [hmore]
      exact h.held packet (World.mem_frames hthread hframes)
  · intro packet hmem
    rcases hlog with hsame | ⟨last, rfl, -⟩
    · simp only [hsame]
      exact h.held packet ((World.mem_frames_exec hthread hframes hmem).resolve_left (hnone packet))
    · -- the packet that is being delivered was the only one
      have hle : w.state.weigh delivering ≤ w.state.weigh WellBehaved.Read.token :=
        World.weigh_le_weigh (fun g => by
          unfold delivering
          split
          · exact Nat.le_refl 1
          · exact Nat.zero_le _) w.state
      have htoken := WellBehaved.recvs_add_token_le (reach_loopOnly hw)
      have hstarted : w.state.shared.receiveLoopStarted.toNat ≤ 1 := Bool.toNat_le _
      have hweigh := World.weigh_exec delivering hthread hframes
        (Frame.exec choice w.state.shared (.readReceivedBuffers (.deliver last))).1 t.guard
        (Frame.exec choice w.state.shared (.readReceivedBuffers (.deliver last))).2
      have hone : delivering (.readReceivedBuffers (.deliver last)) = 1 := rfl
      have hfs : tally delivering (Frame.exec choice w.state.shared
        (.readReceivedBuffers (.deliver last))).2 = 0 := rfl
      have hgone := World.weigh_eq_zero.mp (show World.weigh _ delivering = 0 by omega) _ hmem
      cases hgone

theorem upheld (hw : (fedSession stream).Reach keepsOrder w) : Upheld stream w.state := by
  refine Foundation.Feed.invariant (I := fun w _ => Upheld stream w) ?_ ?_ ?_ hw
  · rintro s ⟨receiveBuffer, sendBuffer, socket, -, -, rfl⟩
    exact ⟨List.nil_prefix, by simp [World.frames]⟩
  · intro w taken tid choice t s' t' hreach ih hok hthread hrun
    cases hdisc' : s'.disconnectRequested with
    | false => exact upheld_of_connected (reach_run hreach hok hthread hrun) hdisc'
    | true =>
      cases Thread.ran_of_run hrun with
      | exec hframes => exact ih.exec hreach hthread hframes hdisc'
      | release hframes hguard =>
        refine ⟨ih.delivered, fun packet hmem => ih.held packet ?_⟩
        refine (World.mem_frames_release hmem).resolve_left fun hnew => ?_
        simp only [Shared.release] at hnew
        split at hnew <;> simp at hnew
  · intro w taken event s' t' hreach ih hok hfront hspawn
    have hnew : packets s'.log = packets w.shared.log ∧
        ∀ packet, .readReceivedBuffers (.deliver packet) ∉ t'.frames := by
      cases Shared.arrived_of_arrive hspawn with
      | call call => cases call <;> simp [ApiCall.frame]
      | _ => simp
    constructor
    · rw [hnew.1]
      exact ih.delivered
    · intro packet hmem
      rw [hnew.1]
      exact ih.held packet ((World.mem_frames_spawn hmem).resolve_left (hnew.2 packet))

end FastPort.Sessions.Delivery
