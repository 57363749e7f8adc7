import FastPort.Sessions.Receive
import FastPort.Sessions.ReceiveLoop
import FastPort.Sessions.FedSession

/-! What an `IOSession` makes of the stream it is fed, with threads that take their
steps in any order: which packets it delivers, and whether it ends. -/
namespace FastPort.Sessions

open FastPort.Commons FastPort.Core FastPort.Core.PacketFramer FastPort.Foundation.Circular
open FastPort.Foundation.Feed FastPort.Foundation.Framing FastPort.Foundation.Pool
open FastPort.Foundation.Stack FastPort.Foundation.Tally FastPort.Foundation.Transition

def packets (log : List Effect) : List Packet :=
  log.filterMap fun effect =>
    match effect with
    | .onPacketReceived packet => some packet
    | _ => none

@[simp] theorem packets_append (log more : List Effect) :
    packets (log ++ more) = packets log ++ packets more :=
  List.filterMap_append

/-- Cut into frames, the stream comes neither to an invalid header nor to a frame that
has filled the ring before it is complete and goes on. -/
def Sound (capacity : Nat) (stream : List Byte) : Prop :=
  (bounded capacity).next ((bounded capacity).drain stream).2 = .needMore

namespace Frame

/-- A frame that is bound to request the disconnect. -/
def ending : Frame → Nat
  | requestDisconnect .claim => 1
  | requestReceived .release | requestReceived .disconnect => 1
  | requestRecv _ .undo => 1
  | handleRecvCompletion .drop | handleRecvCompletion .disconnect => 1
  | connectEx .clearPending | connectEx .undo => 1
  | _ => 0

def judges (s : Shared) : Frame → Prop
  | readReceivedBuffers _ => True
  | requestRecv false .prepare => s.receiveBuffer.canWriteSize = 0
  | _ => False

instance (s : Shared) (f : Frame) : Decidable (f.judges s) := by
  unfold judges
  split <;> infer_instance

end Frame

/-- While the session is connected, nothing but what it has received ends it: no call
of `RequestDisconnect`, no failure of what it posts or sends. A zero-byte receive
completes when there is more to come. -/
def undisturbed (stream : List Byte) (w : Fed World Byte) : Label → Prop
  | .run tid choice =>
      choice.call ≠ some .requestReceived ∧
        ∀ f ∈ w.state.runs (.run tid choice), w.state.shared.disconnectRequested = true ∨
          f.judges w.state.shared ∨ tally Frame.ending (f.exec choice w.state.shared).2 = 0
  | .spawn (.call call) => call ≠ .requestReceived ∧ call ≠ .requestDisconnect
  | .spawn (.recvCompletion _ _ data) => data ≠ [] ∨ w.taken ≠ stream
  | .spawn _ => True

instance (stream : List Byte) (w : Fed World Byte) (l : Label) :
    Decidable (undisturbed stream w l) := by
  unfold undisturbed
  split <;> infer_instance

structure Finished (stream : List Byte) (w : Fed World Byte) : Prop where
  started : w.state.shared.receiveLoopStarted = true
  returned : ∀ t ∈ w.state.threads, t.frames = []
  exhausted : w.taken = stream ∨ w.state.shared.recvs = []

namespace Frame

def covers : Frame → Nat
  | readReceivedBuffers _ | requestDisconnect .claim => 1
  | _ => 0

def covered : Frame → Nat
  | handleRecvCompletion .rearm | handleRecvCompletion .drop => 1
  | _ => 0

def token : Frame → Nat
  | handleRecvCompletion .rearm | handleRecvCompletion .drop => 0
  | requestReceived _ | requestRecv _ _ | handleRecvCompletion _ => 1
  | readReceivedBuffers _ | requestDisconnect .claim => 1
  | _ => 0

theorem token_add_covered (f : Frame) : f.token + f.covered = f.arm + f.covers := by
  cases f with
  | handleRecvCompletion pc => cases pc <;> rfl
  | requestDisconnect pc => cases pc <;> rfl
  | _ => rfl

end Frame

def Nested : List Frame → Prop
  | [] => True
  | f :: rest => (0 < f.covers → rest.head?.elim 0 Frame.covered = 1) ∧ Nested rest

theorem Nested.tally_token_le {fs : List Frame} (h : Nested fs) :
    tally Frame.token fs + fs.head?.elim 0 Frame.covered ≤ tally Frame.arm fs := by
  induction fs with
  | nil => exact Nat.le_refl _
  | cons f rest ih =>
    have hrest := ih h.2
    have hf := f.token_add_covered
    simp only [tally_cons, List.head?_cons, Option.elim_some]
    rcases Nat.eq_zero_or_pos f.covers with hzero | hpos
    · omega
    · have hhead := h.1 hpos
      have hone : f.covers ≤ 1 := by
        unfold Frame.covers
        split <;> simp
      omega

namespace Frame

variable {choice : Choice} {s s' : Shared} {f : Frame} {fs rest : List Frame}

theorem Steps.nested (h : f.Steps choice s s' fs) (hdisc' : s'.disconnectRequested = false)
    (hok : f.judges s ∨ tally ending fs = 0) (hnested : Nested (f :: rest)) :
    Nested (fs ++ rest) := by
  cases h
  all_goals simp_all [Nested, covers, covered, ending, judges]

theorem Steps.unheld (h : f.Steps choice s s' fs) (hf : f.token = 0) (hended : f.ended = 0)
    (hok : f.judges s ∨ tally ending fs = 0) (hcall : choice.call ≠ some .requestReceived) :
    s'.receiveBuffer = s.receiveBuffer ∧ s'.recvOverlapped = s.recvOverlapped ∧
      s'.recvs = s.recvs ∧ packets s'.log = packets s.log ∧
      ∀ g ∈ fs, 0 < g.token → g = .requestReceived .checkDisconnect := by
  cases h
  all_goals simp_all [token, Frame.ended, ending, judges, packets]

theorem Steps.disconnects (h : f.Steps choice s s' fs) (hdisc : s.disconnectRequested = false)
    (hdisc' : s'.disconnectRequested = true) :
    s' = { s with disconnectRequested := true } ∧ (∃ pc, fs = [.requestDisconnect pc] ∧
      pc ≠ .claim) ∧ (f = .requestDisconnect .claim ∨ f = .requestReceived .disconnect ∨
        f = .handleRecvCompletion .disconnect) := by
  cases h
  case disconnectWon hpc | recvDisconnectWon hpc | dropDisconnectWon hpc =>
    rcases hpc with ⟨rfl, -⟩ | ⟨rfl, -⟩ <;> simp
  all_goals simp_all

/-- A frame that may still read or post, whatever the flags say. -/
def live : Frame → Nat
  | readReceivedBuffers _ => 1
  | requestReceived .claim => 1
  | requestRecv _ _ => 1
  | handleRecvCompletion (.start _ _) | handleRecvCompletion (.commitWrite _)
  | handleRecvCompletion (.stamp _) | handleRecvCompletion (.addRxBytes _)
  | handleRecvCompletion .checkDisconnect => 1
  | _ => 0

theorem Steps.silent (h : f.Steps choice s s' fs) (hdisc : s.disconnectRequested = true)
    (hstarted : s.receiveLoopStarted = true) (hf : f.live = 0) :
    s'.receiveLoopStarted = true ∧ s'.recvs = s.recvs ∧ packets s'.log = packets s.log ∧
      tally live fs = 0 := by
  cases h
  all_goals simp_all [live, packets]

end Frame

section

variable {stream taken : List Byte} {s s' : Shared} {f : Frame} {fs : List Frame}
variable {choice : Choice}

/-- The loop has given out `packets s.log`, has `held` in its hand, and is to go on with
the content of the ring. -/
def Cutting (taken : List Byte) (s : Shared) (held : List Packet) : Prop :=
  (bounded s.receiveBuffer.capacity).Cuts Packet.ofRaw taken (packets s.log ++ held)
    s.receiveBuffer.content

structure Rests (taken : List Byte) (s : Shared) : Prop where
  cuts : Cutting taken s []
  needMore : nextFrame s.receiveBuffer.content = .needMore

structure Arriving (taken : List Byte) (s : Shared) (n : Nat) : Prop where
  le : n ≤ taken.length
  room : n ≤ s.receiveBuffer.canWriteSize
  stored : gather s.receiveBuffer.buffer (window s.receiveBuffer.capacity
    (s.receiveBuffer.tail + s.receiveBuffer.size) n) = taken.drop (taken.length - n)
  rests : Rests (taken.take (taken.length - n)) s

def Opens (s : Shared) (buffers : List Span) : Prop :=
  spanCells buffers <+: window s.receiveBuffer.capacity
    (s.receiveBuffer.tail + s.receiveBuffer.size) s.receiveBuffer.canWriteSize

structure Judged (stream : List Byte) (s : Shared) : Prop where
  delivered : packets s.log =
    ((bounded s.receiveBuffer.capacity).drain stream).1.map Packet.ofRaw
  unsound : ¬ Sound s.receiveBuffer.capacity stream

def Stage (stream taken : List Byte) (s : Shared) : Frame → Prop
  | .requestReceived .checkDisconnect | .requestReceived .claim => Rests taken s
  | .requestRecv zeroByte .prepare => Rests taken s ∧ (zeroByte = false → taken ≠ stream)
  | .requestRecv _ .addOutstanding | .requestRecv _ .wsaRecv =>
      Rests taken s ∧ Opens s s.recvOverlapped.wsaBufs
  | .handleRecvCompletion (.start success n) =>
      success = true → Arriving taken s n ∧ (n = 0 → taken ≠ stream)
  | .handleRecvCompletion (.commitWrite n) => Arriving taken s n
  | .handleRecvCompletion (.stamp _) | .handleRecvCompletion (.addRxBytes _)
  | .handleRecvCompletion .checkDisconnect => Cutting taken s []
  | .readReceivedBuffers pc => Cutting taken s pc.taken ∧
      (∀ n, pc = .peek n → n = s.receiveBuffer.size ∧ getHeaderSize ≤ n) ∧
      ∀ n, pc = .pop n → nextFrame s.receiveBuffer.content = .frame n
  | .requestDisconnect .claim => Judged stream s
  | _ => False

structure Idle (taken : List Byte) (s : Shared) : Prop where
  rests : Rests taken s
  opens : ∀ buffers ∈ s.recvs, Opens s buffers

theorem Rests.congr (h : Rests taken s) (hbuffer : s'.receiveBuffer = s.receiveBuffer)
    (hlog : packets s'.log = packets s.log) : Rests taken s' where
  cuts := by
    unfold Cutting
    rw [hbuffer, hlog]
    exact h.cuts
  needMore := hbuffer ▸ h.needMore

theorem Idle.congr (h : Idle taken s) (hbuffer : s'.receiveBuffer = s.receiveBuffer)
    (hrecvs : s'.recvs = s.recvs) (hlog : packets s'.log = packets s.log) : Idle taken s' where
  rests := h.rests.congr hbuffer hlog
  opens := by
    unfold Opens
    rw [hbuffer, hrecvs]
    exact h.opens

theorem Stage.congr (h : Stage stream taken s f) (hbuffer : s'.receiveBuffer = s.receiveBuffer)
    (hover : s'.recvOverlapped = s.recvOverlapped) (hlog : packets s'.log = packets s.log) :
    Stage stream taken s' f := by
  have hcutting : ∀ held, Cutting taken s held → Cutting taken s' held := by
    intro held hcuts
    unfold Cutting at hcuts ⊢
    rwa [hbuffer, hlog]
  have hrests : ∀ {taken}, Rests taken s → Rests taken s' := fun h => h.congr hbuffer hlog
  have harriving : ∀ n, Arriving taken s n → Arriving taken s' n := by
    intro n h
    refine ⟨h.le, hbuffer ▸ h.room, ?_, hrests h.rests⟩
    rw [hbuffer, h.stored]
  have hopens : ∀ {buffers}, Opens s buffers → Opens s' buffers := by
    intro buffers h
    unfold Opens at h ⊢
    rwa [hbuffer]
  match f, h with
  | .requestReceived .checkDisconnect, h | .requestReceived .claim, h => exact hrests h
  | .requestRecv _ .prepare, h => exact ⟨hrests h.1, h.2⟩
  | .requestRecv _ .addOutstanding, h | .requestRecv _ .wsaRecv, h =>
    exact ⟨hrests h.1, hover ▸ hopens h.2⟩
  | .handleRecvCompletion (.start _ n), h =>
    exact fun hsuccess => ⟨harriving n (h hsuccess).1, (h hsuccess).2⟩
  | .handleRecvCompletion (.commitWrite n), h => exact harriving n h
  | .handleRecvCompletion (.stamp _), h | .handleRecvCompletion (.addRxBytes _), h
  | .handleRecvCompletion .checkDisconnect, h => exact hcutting _ h
  | .readReceivedBuffers pc, ⟨hcuts, hheader, hframe⟩ =>
    exact ⟨hcutting _ hcuts, hbuffer ▸ hheader, hbuffer ▸ hframe⟩
  | .requestDisconnect .claim, h =>
    exact ⟨by rw [hbuffer, hlog, h.delivered], hbuffer ▸ h.unsound⟩

theorem Judged.of_invalid {more : List Byte} (h : Cutting taken s [])
    (hstream : taken ++ more = stream)
    (hnext : (bounded s.receiveBuffer.capacity).next (s.receiveBuffer.content ++ more) = .invalid) :
    Judged stream s := by
  have hcuts := h.append more
  rw [hstream] at hcuts
  obtain ⟨hout, hkept⟩ := hcuts.stop (by simp [hnext])
  refine ⟨by simpa using hout, fun hsound => ?_⟩
  unfold Sound at hsound
  rw [← hkept, hnext] at hsound
  cases hsound

theorem Rests.judged (h : Rests taken s) (hfront : taken <+: stream) (hmore : taken ≠ stream)
    (hfull : s.receiveBuffer.canWriteSize = 0) : Judged stream s := by
  obtain ⟨more, hstream⟩ := hfront
  apply Judged.of_invalid h.cuts hstream
  have hsize := RingBuffer.size_add_canWriteSize (q := s.receiveBuffer)
  apply Decoder.bounded_next_of_long
  · rw [RingBuffer.length_content]
    omega
  · rintro rfl
    exact hmore (by simpa using hstream)
  · intro n hn
    have hneed := h.needMore
    rw [show nextFrame s.receiveBuffer.content = .frame n from hn] at hneed
    cases hneed

theorem Arriving.commit {n : Nat} {q : CircleBufferQueue} (h : Arriving taken s n)
    (hq : s.receiveBuffer.commitWrite n = some q) :
    Cutting taken { s with receiveBuffer := q } [] := by
  have hcontent := RingBuffer.content_commitWrite hq
  rw [h.stored] at hcontent
  have hcapacity : q.capacity = s.receiveBuffer.capacity :=
    congrArg List.length (RingBuffer.commitWrite_eq_some.mp hq).2.1
  have hcuts := h.rests.cuts.append (taken.drop (taken.length - n))
  rw [List.take_append_drop] at hcuts
  unfold Cutting
  rw [hcapacity, hcontent]
  exact hcuts

theorem Idle.complete (h : Idle taken s) {index : Nat} {buffers : List Span} {data : List Byte}
    (hpending : s.recvs[index]? = some buffers) (hlength : data.length ≤ (spanCells buffers).length)
    (hmore : data ≠ [] ∨ taken ≠ stream) (success : Bool) :
    Stage stream (taken ++ Event.brings (.recvCompletion index success data))
      { s with
        recvs := s.recvs.eraseIdx index
        receiveBuffer := s.receiveBuffer.fill (spanCells buffers) data }
      (.handleRecvCompletion (.start success data.length)) := by
  rintro rfl
  have hopens := h.opens buffers (List.mem_of_getElem? hpending)
  have hroom : data.length ≤ s.receiveBuffer.canWriteSize := by
    have hle := hopens.length_le
    rw [length_window] at hle
    exact hlength.trans hle
  obtain ⟨hcontent, hstored⟩ := RingBuffer.fill_front (spanCells buffers) hroom (by
    rw [List.prefix_iff_eq_take.mp hopens, List.take_take, Nat.min_eq_left hlength,
      take_window _ _ hroom])
  have hold : (taken ++ data).length - data.length = taken.length := by simp
  refine ⟨⟨by simp [Event.brings], by simpa using hroom, ?_, ⟨?_, ?_⟩⟩, ?_⟩
  · simp only [Event.brings, if_true, hold, List.drop_left']
    simpa using hstored
  · simp only [Event.brings, if_true, hold, List.take_left', Cutting, RingBuffer.fill_capacity,
      hcontent]
    exact h.rests.cuts
  · simp only [hcontent]
    exact h.rests.needMore
  · intro hnone
    obtain rfl := List.length_eq_zero_iff.mp hnone
    simpa [Event.brings] using hmore

theorem Stage.read {pc : ReadReceivedPc} (h : Stage stream taken s (.readReceivedBuffers pc))
    (hstep : (Frame.readReceivedBuffers pc).Steps choice s s' fs)
    (hdisc' : s'.disconnectRequested = false) (hrecvs : s.recvs = [])
    (hfront : taken <+: stream) :
    Stacks.Settled Frame.token (Stage stream taken) (Idle taken) s' fs := by
  obtain ⟨hcuts, hheader, hframe⟩ := h
  have hidle : Cutting taken s [] → nextFrame s.receiveBuffer.content = .needMore →
      Idle taken s := fun hcuts hneed => ⟨⟨hcuts, hneed⟩, by simp [hrecvs]⟩
  cases hstep with
  | readRefused hset | packetDropped hset => simp [hset] at hdisc'
  | readAllowed => exact .cons ⟨hcuts, by simp, by simp⟩ Nat.one_pos rfl
  | headerMissing hshort =>
    refine .of_idle (hidle hcuts (nextFrame_short ?_)) rfl
    rw [RingBuffer.length_content]
    exact hshort
  | headerReadable hlong =>
    refine .cons ⟨hcuts, ?_, by simp⟩ Nat.one_pos rfl
    rintro n ⟨⟩
    exact ⟨rfl, hlong⟩
  | frameInvalid hinvalid =>
    obtain ⟨rfl, hlong⟩ := hheader _ rfl
    obtain ⟨hpeek, hcheck⟩ := checkHeader_content hlong
    have hnext := hinvalid _ hpeek
    rw [hcheck, ← bounded_content] at hnext
    obtain ⟨more, hstream⟩ := hfront
    refine .cons (Judged.of_invalid hcuts hstream ?_) Nat.one_pos rfl
    rw [(bounded _).stable _ _ (by simp [hnext]), hnext]
  | frameIncomplete hpeek hneed =>
    obtain ⟨rfl, hlong⟩ := hheader _ rfl
    obtain ⟨hpeek', hcheck⟩ := checkHeader_content hlong
    obtain rfl := Option.some.inj (hpeek.symm.trans hpeek')
    exact .of_idle (hidle hcuts (hcheck.symm.trans hneed)) rfl
  | frameComplete hpeek hcomplete =>
    obtain ⟨rfl, hlong⟩ := hheader _ rfl
    obtain ⟨hpeek', hcheck⟩ := checkHeader_content hlong
    obtain rfl := Option.some.inj (hpeek.symm.trans hpeek')
    refine .cons ⟨hcuts, by simp, ?_⟩ Nat.one_pos rfl
    rintro n ⟨⟩
    exact hcheck.symm.trans hcomplete
  | popFailed hpop =>
    have hle := decoder.frame_le _ _ (hframe _ rfl)
    rw [RingBuffer.length_content] at hle
    exact absurd (RingBuffer.pop_eq_none.mp hpop) (Nat.not_lt_of_le hle)
  | @popped n bytes q hpop =>
    obtain ⟨-, rfl, hconsume⟩ := RingBuffer.pop_eq_some hpop
    have hcapacity : q.capacity = s.receiveBuffer.capacity :=
      congrArg List.length (RingBuffer.consume_eq_some hconsume).2.1
    have hnext := (bounded_content s.receiveBuffer).trans (hframe _ rfl)
    have hcut := Decoder.Cuts.frame hcuts hnext
    rw [← RingBuffer.content_consume hconsume, ← hcapacity] at hcut
    refine .cons ⟨?_, by simp, by simp⟩ Nat.one_pos rfl
    simpa [Cutting, ReadReceivedPc.taken] using hcut
  | packetKept => exact .cons ⟨hcuts, by simp, by simp⟩ Nat.one_pos rfl
  | @delivered packet =>
    refine .skip (.cons ⟨?_, by simp, by simp⟩ Nat.one_pos rfl) rfl
    simpa [Cutting, ReadReceivedPc.taken, packets] using hcuts

theorem length_le_spanCells {span : Span} {spans : List Span} (h : span ∈ spans) :
    span.length ≤ (spanCells spans).length := by
  induction spans with
  | nil => cases h
  | cons first spans ih =>
    rw [spanCells_cons, List.length_append, Span.length_cells]
    rcases List.mem_cons.mp h with rfl | h
    · omega
    · have := ih h
      omega

theorem opens_writeable (hcap : s.receiveBuffer.capacity < 2 ^ 32) :
    Opens s (s.receiveBuffer.getWriteableBuffers.2.map wsaBuf) := by
  have hnarrow : ∀ span ∈ s.receiveBuffer.getWriteableBuffers.2, span.length < 2 ^ 32 := by
    intro span hspan
    have hsize := RingBuffer.size_add_canWriteSize (q := s.receiveBuffer)
    have hlength := congrArg List.length (RingBuffer.spanCells_getWriteableBuffers
      (q := s.receiveBuffer))
    rw [length_window] at hlength
    have hle := length_le_spanCells hspan
    omega
  rw [map_wsaBuf hnarrow]
  exact ⟨[], by rw [RingBuffer.spanCells_getWriteableBuffers, List.append_nil]⟩

theorem Stage.exec (h : Stage stream taken s f) (htoken : 0 < f.token)
    (hstep : f.Steps choice s s' fs) (hdisc' : s'.disconnectRequested = false)
    (hok : f.judges s ∨ tally Frame.ending fs = 0) (hrecvs : s.recvs = [])
    (hfront : taken <+: stream) (hcap : s.receiveBuffer.capacity < 2 ^ 32)
    (hzero : s.recvOverlapped.isZeroByte = true → f.carrying = 0) :
    Stacks.Settled Frame.token (Stage stream taken) (Idle taken) s' fs := by
  have hidle : Rests taken s → Idle taken s := fun hrests => ⟨hrests, by simp [hrecvs]⟩
  cases f with
  | readReceivedBuffers pc => exact h.read hstep hdisc' hrecvs hfront
  | requestDisconnect pc =>
    cases pc with
    | claim => cases hstep <;> simp_all
    | _ => cases htoken
  | requestReceived pc =>
    cases hstep with
    | receiveRefused hset => simp [hset] at hdisc'
    | receiveAllowed => exact .cons h Nat.one_pos rfl
    | recvBusy => exact .of_idle (hidle h) rfl
    | recvClaimed => exact .cons ⟨Rests.congr h rfl rfl, by simp⟩ Nat.one_pos rfl
    | recvReleased => cases h
    | recvDisconnectLost => cases h
    | recvDisconnectWon => cases h
  | requestRecv zeroByte pc =>
    cases hstep with
    | zeroByteNoSocket => simp [Frame.judges, Frame.ending] at hok
    | recvNoSocket _ hroom => simp [Frame.judges, Frame.ending, hroom] at hok
    | zeroBytePrepared =>
      refine .cons ⟨Rests.congr h.1 rfl rfl, ?_⟩ Nat.one_pos rfl
      simp [Opens, Span.cells]
    | recvFull hfull =>
      have hjudged := h.1.judged hfront (h.2 rfl) hfull
      exact .cons ⟨hjudged.delivered, hjudged.unsound⟩ Nat.one_pos rfl
    | recvPrepared =>
      exact .cons ⟨Rests.congr h.1 rfl rfl, opens_writeable hcap⟩ Nat.one_pos rfl
    | recvAdded => exact .cons ⟨Rests.congr h.1 rfl rfl, h.2⟩ Nat.one_pos rfl
    | recvPosted =>
      refine .of_idle ⟨Rests.congr h.1 rfl rfl, ?_⟩ rfl
      intro buffers hbuffers
      rw [hrecvs] at hbuffers
      obtain rfl := List.mem_singleton.mp hbuffers
      exact h.2
    | recvFailed => simp [Frame.judges, Frame.ending] at hok
    | zeroByteUndone => cases h
    | recvUndone => cases h
  | handleRecvCompletion pc =>
    cases hstep with
    | recvCompletedBadly => simp [Frame.judges, Frame.ending] at hok
    | zeroByteArrived =>
      obtain ⟨harriving, hmore⟩ := h rfl
      have hrests := harriving.rests
      rw [Nat.sub_zero, List.take_length] at hrests
      exact .cons ⟨hrests, fun _ => hmore rfl⟩ Nat.one_pos rfl
    | zeroByteCarried hset hn => simp [Frame.carrying, hset, hn] at hzero
    | peerClosed => simp [Frame.judges, Frame.ending] at hok
    | dataArrived => exact .cons (h rfl).1 Nat.one_pos rfl
    | commitFailed => simp [Frame.judges, Frame.ending] at hok
    | committed hroom => exact .cons (Arriving.commit h hroom) Nat.one_pos rfl
    | stamped => exact .cons h Nat.one_pos rfl
    | addedRxBytes => exact .cons h Nat.one_pos rfl
    | recvDropped hset => simp [hset] at hdisc'
    | recvRead => exact .cons ⟨h, by simp, by simp⟩ Nat.one_pos rfl
    | rearmed => cases htoken
    | dropped => cases htoken
    | released => cases h
    | dropDisconnectLost => cases h
    | dropDisconnectWon => cases h
  | _ => cases htoken

theorem Idle.exec (h : Idle taken s)
    (hbuffer : s'.receiveBuffer = s.receiveBuffer) (hrecvs : s'.recvs = s.recvs)
    (hlog : packets s'.log = packets s.log)
    (hfs : ∀ g ∈ fs, 0 < g.token → g = .requestReceived .checkDisconnect) :
    Stacks.Settled Frame.token (Stage stream taken) (Idle taken) s' fs := by
  have hidle := h.congr hbuffer hrecvs hlog
  refine ⟨fun g hg hpos => ?_, fun _ => hidle⟩
  obtain rfl := hfs g hg hpos
  exact hidle.rests

end

section

variable {stream : List Byte} {w : Fed World Byte}

theorem reach_loopOnly (hw : (fedSession stream).Reach (undisturbed stream) w) :
    system.Reach loopOnly w.state := by
  refine reach_state (fun w l hok => ?_) hw
  cases l with
  | run tid choice => exact hok.1
  | spawn event =>
    cases event with
    | call call => exact hok.1
    | _ => trivial

theorem recvs_add_token_le {w : World} (hw : system.Reach loopOnly w)
    (hnested : ∀ t ∈ w.threads, Nested t.frames) :
    w.shared.recvs.length + w.weigh Frame.token ≤ w.shared.receiveLoopStarted.toNat := by
  have harm := recvs_add_arm_le hw
  have hle : w.weigh Frame.token ≤ w.weigh Frame.arm := tally_le_tally fun t ht => by
    have := (hnested t ht).tally_token_le
    omega
  omega

structure Tracks (stream taken : List Byte) (w : World) : Prop where
  nested : ∀ t ∈ w.threads, Nested t.frames
  staged : Stacks.Staged Frame.token (Stage stream taken) (Idle taken) w.stacks

theorem Tracks.exec {w : World} {taken : List Byte} (h : Tracks stream taken w)
    (hw : system.Reach loopOnly w) {tid : Nat} {choice : Choice} {t : Thread} {f : Frame}
    {rest : List Frame} (hthread : w.threads[tid]? = some t) (hframes : t.frames = f :: rest)
    (hnext : system.Reach loopOnly ⟨(f.exec choice w.shared).1,
      w.threads.set tid ⟨t.guard, (f.exec choice w.shared).2 ++ rest⟩⟩)
    (hdisc' : (f.exec choice w.shared).1.disconnectRequested = false)
    (hok : f.judges w.shared ∨ tally Frame.ending (f.exec choice w.shared).2 = 0)
    (hcall : choice.call ≠ some .requestReceived) (hfront : taken <+: stream)
    (hcap : w.shared.receiveBuffer.capacity < 2 ^ 32) :
    Tracks stream taken ⟨(f.exec choice w.shared).1,
      w.threads.set tid ⟨t.guard, (f.exec choice w.shared).2 ++ rest⟩⟩ := by
  have hstep := f.steps_exec choice w.shared
  have hdisc := disconnectRequested_of_exec hdisc'
  have hnested : ∀ u ∈ w.threads.set tid ⟨t.guard, (f.exec choice w.shared).2 ++ rest⟩,
      Nested u.frames := by
    refine forall_mem_set h.nested (hstep.nested hdisc' hok ?_)
    rw [← hframes]
    exact h.nested t (List.mem_of_getElem? hthread)
  refine ⟨hnested, ?_⟩
  have hstack : w.stacks.threads[tid]? = some (f :: rest) := by
    simp [World.stacks, hthread, hframes]
  have htoken := recvs_add_token_le hw h.nested
  have htoken' := recvs_add_token_le hnext hnested
  have hstarted : w.shared.receiveLoopStarted.toNat ≤ 1 := Bool.toNat_le _
  have hstarted' : (f.exec choice w.shared).1.receiveLoopStarted.toNat ≤ 1 := Bool.toNat_le _
  rw [World.stacks_set]
  rcases Nat.eq_zero_or_pos f.token with hzero | hpos
  · have hended : f.ended = 0 := by
      have hle : f.ended ≤ w.weigh Frame.ended := World.weight_le_weigh hthread hframes
      have hnone := (ended_eq_zero hw hdisc).2
      omega
    obtain ⟨hbuffer, hover, hrecvs, hlog, hfs⟩ := hstep.unheld hzero hended hok hcall
    refine h.staged.other hstack hzero ?_ (fun g _ hg => hg.congr hbuffer hover hlog)
      fun hidle => hidle.exec hbuffer hrecvs hlog hfs
    rw [← World.weigh_stacks, World.stacks_set] at htoken'
    simp only at htoken'
    omega
  · have hle : f.token ≤ w.weigh Frame.token := World.weight_le_weigh hthread hframes
    have hnone : w.shared.recvs = [] := List.length_eq_zero_iff.mp (by omega)
    have hstage := h.staged.stage _ (List.mem_of_getElem? hstack) f List.mem_cons_self hpos
    refine Stacks.Staged.owner ?_ hstack hpos (hstage.exec hpos hstep hdisc' hok hnone hfront hcap
      (carrying_eq_zero hw hdisc hthread hframes))
    rw [World.weigh_stacks]
    omega

theorem Tracks.release {w : World} {taken : List Byte} (h : Tracks stream taken w) {tid : Nat}
    {t : Thread} (hthread : w.threads[tid]? = some t) (hframes : t.frames = []) :
    Tracks stream taken ⟨w.shared.release.1, w.threads.set tid ⟨none, w.shared.release.2⟩⟩ := by
  have hguard : ∀ g ∈ w.shared.release.2, g = .guardCheck := by
    intro g hg
    simp only [Shared.release] at hg
    split at hg <;> simp_all
  constructor
  · apply forall_mem_set h.nested
    simp only [Shared.release]
    split <;> simp [Nested, Frame.covers]
  · refine h.staged.congr ?_ ?_ ?_ ?_
    · intro stack hstack g hg hpos
      rw [World.stacks_set] at hstack
      rcases List.mem_or_eq_of_mem_set hstack with hold | rfl
      · exact ⟨stack, hold, hg⟩
      · obtain rfl := hguard g hg
        cases hpos
    · rw [World.weigh_stacks, World.weigh_stacks, World.weigh_release _ hthread hframes,
        Shared.tally_release rfl]
      rfl
    · exact fun g hg => hg.congr rfl rfl rfl
    · exact fun hidle => hidle.congr rfl rfl rfl

theorem Tracks.quiet {w : World} {taken : List Byte} (h : Tracks stream taken w) {s' : Shared}
    {t' : Thread} (hbuffer : s'.receiveBuffer = w.shared.receiveBuffer)
    (hover : s'.recvOverlapped = w.shared.recvOverlapped) (hrecvs : s'.recvs = w.shared.recvs)
    (hlog : packets s'.log = packets w.shared.log) (hnested : Nested t'.frames)
    (hzero : tally Frame.token t'.frames = 0) :
    Tracks stream taken ⟨s', w.threads ++ [t']⟩ := by
  refine ⟨forall_mem_append_singleton h.nested hnested, h.staged.congr ?_ ?_ ?_ ?_⟩
  · intro stack hstack g hg hpos
    rw [World.stacks_append] at hstack
    rcases List.mem_append.mp hstack with hold | hnew
    · exact ⟨stack, hold, hg⟩
    · obtain rfl := List.mem_singleton.mp hnew
      have hnone := tally_eq_zero.mp hzero g hg
      omega
  · rw [World.weigh_stacks, World.weigh_stacks, World.weigh_spawn, hzero]
    rfl
  · exact fun g hg => hg.congr hbuffer hover hlog
  · exact fun hidle => hidle.congr hbuffer hrecvs hlog

theorem Tracks.arrive {w : World} {taken : List Byte} (h : Tracks stream taken w)
    (hw : system.Reach loopOnly w) {event : Event} {s' : Shared} {t' : Thread}
    (harrived : w.shared.Arrived event s' t')
    (hok : undisturbed stream ⟨w, taken⟩ (.spawn event)) :
    Tracks stream (taken ++ event.brings) ⟨s', w.threads ++ [t']⟩ := by
  cases harrived with
  | call call =>
    simp only [Event.brings, List.append_nil]
    cases call with
    | sendMessage | startReceiveLoop =>
      exact h.quiet rfl rfl rfl rfl (by simp [ApiCall.frame, Nested, Frame.covers]) rfl
    | requestReceived => exact absurd rfl hok.1
    | requestDisconnect => exact absurd rfl hok.2
  | recvCompletion hpending hlength =>
    have htoken := recvs_add_token_le hw h.nested
    have hstarted : w.shared.receiveLoopStarted.toNat ≤ 1 := Bool.toNat_le _
    obtain ⟨hlt, -⟩ := List.getElem?_eq_some_iff.mp hpending
    refine ⟨forall_mem_append_singleton h.nested (by simp [Nested, Frame.covers]), ?_⟩
    rw [World.stacks_append]
    have hnone : w.stacks.weigh Frame.token = 0 := by
      rw [World.weigh_stacks]
      omega
    have hidle := h.staged.idle hnone
    exact Stacks.Staged.arrive_none hnone
      (.cons (hidle.complete hpending hlength hok _) Nat.one_pos rfl)
  | connectEx | sendCompletion | connectCompletion =>
    simp only [Event.brings, List.append_nil]
    exact h.quiet rfl rfl rfl rfl (by simp [Nested, Frame.covers]) rfl

theorem tracks (hw : (fedSession stream).Reach (undisturbed stream) w)
    (hcap : w.state.shared.receiveBuffer.capacity < 2 ^ 32)
    (hdisc : w.state.shared.disconnectRequested = false) :
    Tracks stream w.taken w.state := by
  revert hcap hdisc
  refine Foundation.Feed.invariant (I := fun w taken => w.shared.receiveBuffer.capacity < 2 ^ 32 →
    w.shared.disconnectRequested = false → Tracks stream taken w) ?_ ?_ ?_ hw
  · rintro s ⟨receiveBuffer, sendBuffer, socket, hempty, -, rfl⟩ _ _
    have hcontent : receiveBuffer.content = [] :=
      List.length_eq_zero_iff.mp (RingBuffer.length_content.trans hempty)
    refine ⟨by simp, ⟨by simp [World.stacks], fun _ => ⟨⟨?_, ?_⟩, ?_⟩⟩⟩
    · simp only [Cutting, Shared.initial, World.stacks, hcontent]
      exact Decoder.Cuts.nil
    · simp [Shared.initial, World.stacks, hcontent, nextFrame]
    · simp [Shared.initial, World.stacks]
  · intro w taken tid choice t s' t' hreach ih hok hthread hrun hcap hdisc'
    have hnext := Machine.reach_run (reach_loopOnly hreach) hok.1 hthread hrun
    cases Thread.ran_of_run hrun with
    | @exec f rest hframes =>
      have hdisc := disconnectRequested_of_exec hdisc'
      rw [(f.steps_exec choice w.shared).capacity] at hcap
      have hjudged := (hok.2 f (World.runs_eq hthread hframes)).resolve_left (by simp [hdisc])
      exact (ih hcap hdisc).exec (reach_loopOnly hreach) hthread hframes hnext hdisc'
        hjudged hok.1 (taken_front hreach) hcap
    | release hframes hguard => exact (ih hcap hdisc').release hthread hframes
  · intro w taken event s' t' hreach ih hok _ hspawn hcap hdisc'
    have harrived := Shared.arrived_of_arrive hspawn
    refine (ih ?_ ?_).arrive (reach_loopOnly hreach) harrived hok
    · cases harrived with
      | recvCompletion => rwa [RingBuffer.fill_capacity] at hcap
      | _ => exact hcap
    · cases harrived <;> exact hdisc'

structure Over (stream : List Byte) (w : World) : Prop where
  judged : Judged stream w.shared
  started : w.shared.receiveLoopStarted = true
  recvs : w.shared.recvs = []
  live : w.weigh Frame.live = 0

theorem Judged.congr {s s' : Shared} (h : Judged stream s)
    (hcapacity : s'.receiveBuffer.capacity = s.receiveBuffer.capacity)
    (hlog : packets s'.log = packets s.log) : Judged stream s' := by
  constructor
  · rw [hlog, hcapacity]
    exact h.delivered
  · rw [hcapacity]
    exact h.unsound

theorem Tracks.disconnected {w : World} {taken : List Byte} (h : Tracks stream taken w)
    (hw : system.Reach loopOnly w) {tid : Nat} {choice : Choice} {t : Thread} {f : Frame}
    {rest : List Frame} (hthread : w.threads[tid]? = some t) (hframes : t.frames = f :: rest)
    (hdisc : w.shared.disconnectRequested = false)
    (hdisc' : (f.exec choice w.shared).1.disconnectRequested = true) :
    Over stream ⟨(f.exec choice w.shared).1,
      w.threads.set tid ⟨t.guard, (f.exec choice w.shared).2 ++ rest⟩⟩ := by
  have hweigh := World.weigh_exec Frame.live hthread hframes (f.exec choice w.shared).1 t.guard
    (f.exec choice w.shared).2
  obtain ⟨hshared, ⟨pc, hfs, hpc⟩, hf⟩ :=
    (f.steps_exec choice w.shared).disconnects hdisc hdisc'
  have hstack : w.stacks.threads[tid]? = some (f :: rest) := by
    simp [World.stacks, hthread, hframes]
  have hstage := h.staged.stage _ (List.mem_of_getElem? hstack) f List.mem_cons_self
  rcases hf with rfl | rfl | rfl
  · have hjudged : Judged stream w.shared := hstage Nat.one_pos
    have htoken := recvs_add_token_le hw h.nested
    have hone : Frame.token (.requestDisconnect .claim) ≤ w.weigh Frame.token :=
      World.weight_le_weigh hthread hframes
    rw [Frame.token] at hone
    have hstarted : w.shared.receiveLoopStarted.toNat ≤ 1 := Bool.toNat_le _
    have hlive : w.weigh Frame.live = 0 := by
      refine World.weigh_eq_of_alone (v := Frame.token) ?_ hthread hframes
        (by rw [Frame.token]; omega)
      intro g hg
      unfold Frame.live
      split <;> simp_all [Frame.token]
    rw [hfs, hlive] at hweigh
    rw [hshared] at hweigh ⊢
    refine ⟨hjudged.congr rfl rfl, ?_, List.length_eq_zero_iff.mp (by simp only; omega), ?_⟩
    · cases hloop : w.shared.receiveLoopStarted with
      | true => rfl
      | false =>
        rw [hloop, Bool.toNat_false] at htoken
        omega
    · rw [hfs]
      simpa [Frame.live] using hweigh
  · cases hstage Nat.one_pos
  · cases hstage Nat.one_pos

theorem disconnected (hw : (fedSession stream).Reach (undisturbed stream) w)
    (hcap : w.state.shared.receiveBuffer.capacity < 2 ^ 32)
    (hdisc : w.state.shared.disconnectRequested = true) : Over stream w.state := by
  revert hcap hdisc
  refine Foundation.Feed.invariant (I := fun w _ => w.shared.receiveBuffer.capacity < 2 ^ 32 →
    w.shared.disconnectRequested = true → Over stream w) ?_ ?_ ?_ hw
  · rintro s ⟨receiveBuffer, sendBuffer, socket, -, -, rfl⟩ _ hdisc
    cases hdisc
  · intro w taken tid choice t s' t' hreach ih hok hthread hrun hcap hdisc'
    cases Thread.ran_of_run hrun with
    | @exec f rest hframes =>
      have hstep := f.steps_exec choice w.shared
      have hcapacity := hstep.capacity
      rw [hcapacity] at hcap
      cases hdisc : w.shared.disconnectRequested with
      | false =>
        have htracks := tracks hreach hcap hdisc
        exact htracks.disconnected (reach_loopOnly hreach) hthread hframes hdisc hdisc'
      | true =>
        obtain ⟨hjudged, hstarted, hrecvs, hlive⟩ := ih hcap hdisc
        have hle : f.live ≤ World.weigh w Frame.live := World.weight_le_weigh hthread hframes
        obtain ⟨hstarted', hrecvs', hlog, hfs⟩ := hstep.silent hdisc hstarted (by omega)
        have hweigh := World.weigh_exec Frame.live hthread hframes (f.exec choice w.shared).1
          t.guard (f.exec choice w.shared).2
        exact ⟨hjudged.congr hcapacity hlog, hstarted', hrecvs'.trans hrecvs, by omega⟩
    | release hframes hguard =>
      obtain ⟨hjudged, hstarted, hrecvs, hlive⟩ := ih hcap hdisc'
      refine ⟨hjudged.congr rfl rfl, hstarted, hrecvs, ?_⟩
      rw [World.weigh_release _ hthread hframes, Shared.tally_release rfl, hlive]
  · intro w taken event s' t' hreach ih hok _ hspawn hcap hdisc'
    cases Shared.arrived_of_arrive hspawn with
    | call call =>
      obtain ⟨hjudged, hstarted, hrecvs, hlive⟩ := ih hcap hdisc'
      refine ⟨hjudged, hstarted, hrecvs, ?_⟩
      rw [World.weigh_spawn, hlive]
      cases call <;> rfl
    | recvCompletion hpending hlength =>
      rw [RingBuffer.fill_capacity] at hcap
      obtain ⟨-, -, hrecvs, -⟩ := ih hcap hdisc'
      simp [hrecvs] at hpending
    | _ =>
      obtain ⟨hjudged, hstarted, hrecvs, hlive⟩ := ih hcap hdisc'
      refine ⟨hjudged.congr rfl rfl, hstarted, hrecvs, ?_⟩
      rw [World.weigh_spawn, hlive]
      rfl

theorem Finished.verdict (hend : Finished stream w)
    (hw : (fedSession stream).Reach (undisturbed stream) w)
    (hcap : w.state.shared.receiveBuffer.capacity < 2 ^ 32) :
    packets w.state.shared.log =
        ((bounded w.state.shared.receiveBuffer.capacity).drain stream).1.map Packet.ofRaw ∧
      (w.state.shared.disconnectRequested = true ↔
        ¬ Sound w.state.shared.receiveBuffer.capacity stream) := by
  cases hdisc : w.state.shared.disconnectRequested with
  | true =>
    have hjudged := (Sessions.disconnected hw hcap hdisc).judged
    exact ⟨hjudged.delivered, by simp [hjudged.unsound]⟩
  | false =>
    have hreturned : ∀ weight, w.state.weigh weight = 0 := by
      intro weight
      apply tally_eq_zero.mpr
      intro t ht
      rw [hend.returned t ht, tally_nil]
    have hidle := (tracks hw hcap hdisc).staged.idle (by rw [World.weigh_stacks, hreturned])
    have htaken : w.taken = stream := by
      rcases hend.exhausted with htaken | hnone
      · exact htaken
      · have hbalance := arm_balance (reach_loopOnly hw) hdisc
        rw [hend.started, hnone, hreturned] at hbalance
        cases hbalance
    obtain ⟨hcuts, hneed⟩ := hidle.rests
    rw [htaken] at hcuts
    have hneed' := (bounded_content w.state.shared.receiveBuffer).trans hneed
    obtain ⟨hout, hkept⟩ := hcuts.stop (by simp [World.stacks, hneed'])
    refine ⟨by simpa [World.stacks] using hout, by simp, fun hunsound => ?_⟩
    refine absurd ?_ hunsound
    unfold Sound
    rw [← hneed']
    exact congrArg _ hkept.symm

end

end FastPort.Sessions
