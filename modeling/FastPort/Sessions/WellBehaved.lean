import FastPort.Sessions.Receive
import FastPort.Sessions.ReceiveLoop
import FastPort.Sessions.FedSession

/-! A peer that sends frames, each of which fits into the receive ring. After every turn
of the framer the ring holds less than one frame, so there is room for the next receive;
what is received into it goes on with that frame. -/
namespace FastPort.Sessions.WellBehaved

open FastPort.Commons FastPort.Core FastPort.Core.PacketFramer FastPort.Foundation.Circular
open FastPort.Foundation.Feed FastPort.Foundation.Framing FastPort.Foundation.Pool
open FastPort.Foundation.Stack FastPort.Foundation.Tally FastPort.Foundation.Transition

def Frames (capacity : Nat) (frames : List (List Byte)) : Prop :=
  ∀ f ∈ frames, nextFrame f = .frame f.length ∧ f.length ≤ capacity

/-- `WSABUF.len` is 32 bits wide: a receive brings no more bytes than its first `WSABUF`
describes, unless that one describes the first free block in full. -/
def describedInFull (w : World) : Label → Prop
  | .spawn (.recvCompletion index _ data) =>
      ∀ buffers ∈ w.shared.recvs[index]?, data.length ≤ (buffers.headD ⟨0, 0⟩).length ∨
        (w.shared.receiveBuffer.getWriteableBuffers.2.headD ⟨0, 0⟩).length < 2 ^ 32
  | _ => True

/-- The condition on the steps of a run, beside what the receive loop relies on. -/
def keepsOrder (w : Fed World Byte) (l : Label) : Prop :=
  loopOnly w.state l ∧ describedInFull w.state l

namespace Read

def covers : Frame → Nat
  | .readReceivedBuffers _ => 1
  | _ => 0

def covered : Frame → Nat
  | .handleRecvCompletion .rearm => 1
  | _ => 0

def token : Frame → Nat
  | .handleRecvCompletion .rearm => 0
  | .handleRecvCompletion _ | .requestReceived _ | .requestRecv _ _ => 1
  | .readReceivedBuffers _ => 1
  | _ => 0

theorem token_add_covered (f : Frame) : token f + covered f = f.arm + covers f := by
  cases f with
  | handleRecvCompletion pc => cases pc <;> rfl
  | _ => rfl

/-- Every call of `ReadReceivedBuffers` stands on the handler that made it. -/
def Nested : List Frame → Prop
  | [] => True
  | f :: rest => (0 < covers f → rest.head?.elim 0 covered = 1) ∧ Nested rest

theorem Nested.tally_token_le {fs : List Frame} (h : Nested fs) :
    tally token fs + fs.head?.elim 0 covered ≤ tally Frame.arm fs := by
  induction fs with
  | nil => exact Nat.le_refl _
  | cons f rest ih =>
    have hrest := ih h.2
    have hf := token_add_covered f
    simp only [tally_cons, List.head?_cons, Option.elim_some]
    rcases Nat.eq_zero_or_pos (covers f) with hzero | hpos
    · omega
    · have hhead := h.1 hpos
      have hone : covers f ≤ 1 := by
        unfold covers
        split <;> simp
      omega

end Read

instance (w : World) (l : Label) : Decidable (describedInFull w l) :=
  match l with
  | .spawn (.recvCompletion ..) => inferInstanceAs (Decidable (∀ _ ∈ (_ : Option _), _ ∨ _))
  | .run .. => .isTrue trivial
  | .spawn (.call _) => .isTrue trivial
  | .spawn .connectEx => .isTrue trivial
  | .spawn (.sendCompletion ..) => .isTrue trivial
  | .spawn (.connectCompletion _) => .isTrue trivial

instance (w : Fed World Byte) (l : Label) : Decidable (keepsOrder w l) :=
  inferInstanceAs (Decidable (_ ∧ _))

section

variable {frames : List (List Byte)} {taken : List Byte} {s s' : Shared} {f : Frame}
variable {fs : List Frame} {choice : Choice}

def Aligned (frames : List (List Byte)) (taken : List Byte) (s : Shared) : Prop :=
  ∃ delivered rest, frames = delivered ++ rest ∧
    taken = delivered.flatten ++ s.receiveBuffer.content

structure Resting (frames : List (List Byte)) (taken : List Byte) (s : Shared) : Prop where
  aligned : Aligned frames taken s
  needMore : nextFrame s.receiveBuffer.content = .needMore

def Incoming (frames : List (List Byte)) (taken : List Byte) (s : Shared) (n : Nat) : Prop :=
  ∃ old data, taken = old ++ data ∧ data.length = n ∧ n ≤ s.receiveBuffer.canWriteSize ∧
    gather s.receiveBuffer.buffer (window s.receiveBuffer.capacity
      (s.receiveBuffer.tail + s.receiveBuffer.size) n) = data ∧ Resting frames old s

/-- What `PrepareRecvBuffers` describes: nothing, or the free room. -/
def Describes (s : Shared) (buffers : List Span) : Prop :=
  buffers = [⟨0, 0⟩] ∨ buffers = s.receiveBuffer.getWriteableBuffers.2.map wsaBuf

theorem Aligned.cases (h : Aligned frames taken s)
    (hframes : Frames s.receiveBuffer.capacity frames) (hfront : taken <+: frames.flatten)
    (hcap : 0 < s.receiveBuffer.capacity) :
    (nextFrame s.receiveBuffer.content = .needMore ∧ 0 < s.receiveBuffer.canWriteSize) ∨
    ∃ n, nextFrame s.receiveBuffer.content = .frame n ∧
      ∀ q, s.receiveBuffer.consume n = some q →
        Aligned frames taken { s with receiveBuffer := q } := by
  obtain ⟨delivered, rest, rfl, rfl⟩ := h
  rw [List.flatten_append, List.prefix_append_right_inj] at hfront
  have hrest : ∀ f ∈ rest, nextFrame f = .frame f.length ∧ f.length ≤ s.receiveBuffer.capacity :=
    fun f hf => hframes f (List.mem_append_right delivered hf)
  have hsize := RingBuffer.size_add_canWriteSize (q := s.receiveBuffer)
  rcases decoder.next_of_prefix (fun f hf => (hrest f hf).1) hfront with hnil |
    ⟨f, more, rfl, hlt, hneed⟩ | ⟨f, more, ys, rfl, hcontent, hnext⟩
  · refine .inl ⟨by rw [hnil]; rfl, ?_⟩
    have hzero := congrArg List.length hnil
    rw [RingBuffer.length_content, List.length_nil] at hzero
    omega
  · refine .inl ⟨hneed, ?_⟩
    have hfits := (hrest f List.mem_cons_self).2
    rw [RingBuffer.length_content] at hlt
    omega
  · refine .inr ⟨f.length, hnext, fun q hq => ⟨delivered ++ [f], more, by simp, ?_⟩⟩
    simp only [RingBuffer.content_consume hq, hcontent]
    simp

theorem Resting.room (h : Resting frames taken s)
    (hframes : Frames s.receiveBuffer.capacity frames) (hfront : taken <+: frames.flatten)
    (hcap : 0 < s.receiveBuffer.capacity) : 0 < s.receiveBuffer.canWriteSize := by
  rcases h.aligned.cases hframes hfront hcap with ⟨-, hroom⟩ | ⟨n, hnext, -⟩
  · exact hroom
  · rw [h.needMore] at hnext
    cases hnext

theorem Aligned.congr (h : Aligned frames taken s)
    (hbuffer : s'.receiveBuffer = s.receiveBuffer) : Aligned frames taken s' := by
  unfold Aligned
  rw [hbuffer]
  exact h

theorem Resting.congr (h : Resting frames taken s)
    (hbuffer : s'.receiveBuffer = s.receiveBuffer) : Resting frames taken s' :=
  ⟨h.aligned.congr hbuffer, hbuffer ▸ h.needMore⟩

theorem Incoming.congr {n : Nat} (h : Incoming frames taken s n)
    (hbuffer : s'.receiveBuffer = s.receiveBuffer) : Incoming frames taken s' n := by
  obtain ⟨old, data, htaken, hlength, hroom, hstored, hresting⟩ := h
  exact ⟨old, data, htaken, hlength, by rw [hbuffer]; exact hroom, by rw [hbuffer]; exact hstored,
    hresting.congr hbuffer⟩

theorem Describes.congr {buffers : List Span} (h : Describes s buffers)
    (hbuffer : s'.receiveBuffer = s.receiveBuffer) : Describes s' buffers := by
  unfold Describes
  rw [hbuffer]
  exact h

theorem Incoming.commit {n : Nat} {q : CircleBufferQueue} (h : Incoming frames taken s n)
    (hq : s.receiveBuffer.commitWrite n = some q) :
    Aligned frames taken { s with receiveBuffer := q } := by
  obtain ⟨old, data, rfl, -, -, hstored, ⟨delivered, rest, hframes, hold⟩, -⟩ := h
  refine ⟨delivered, rest, hframes, ?_⟩
  simp only [RingBuffer.content_commitWrite hq, hstored, hold, List.append_assoc]

theorem wsaBuf_cells_isPrefix (span : Span) : (wsaBuf span).cells <+: span.cells := by
  have hle : (wsaBuf span).length ≤ span.length := Nat.mod_le _ _
  rw [List.prefix_iff_eq_take, Span.length_cells, Span.cells, Span.cells, take_range',
    Nat.min_eq_left hle]
  rfl

theorem writeableBuffers_cases (q : RingBuffer) :
    q.getWriteableBuffers.2 = [] ∨ (∃ first, q.getWriteableBuffers.2 = [first]) ∨
      ∃ first second, q.getWriteableBuffers.2 = [first, second] := by
  unfold RingBuffer.getWriteableBuffers RingBuffer.blocks
  split
  · exact .inl rfl
  · dsimp only
    split
    · exact .inr (.inr ⟨_, _, rfl⟩)
    · exact .inr (.inl ⟨_, rfl⟩)

theorem Describes.take {buffers : List Span} (h : Describes s buffers) {n : Nat}
    (hn : n ≤ (spanCells buffers).length)
    (hfirst : n ≤ (buffers.headD ⟨0, 0⟩).length ∨
      (s.receiveBuffer.getWriteableBuffers.2.headD ⟨0, 0⟩).length < 2 ^ 32) :
    n ≤ s.receiveBuffer.canWriteSize ∧
      (spanCells buffers).take n = window s.receiveBuffer.capacity
        (s.receiveBuffer.tail + s.receiveBuffer.size) n := by
  have hcells := RingBuffer.spanCells_getWriteableBuffers (q := s.receiveBuffer)
  -- a leading part of the free room that the bytes lie in
  suffices hlead : ∃ cells, cells <+: spanCells s.receiveBuffer.getWriteableBuffers.2 ∧
      n ≤ cells.length ∧ (spanCells buffers).take n = cells.take n by
    obtain ⟨cells, hprefix, hlength, htake⟩ := hlead
    rw [hcells] at hprefix
    have hroom := hlength.trans hprefix.length_le
    rw [length_window] at hroom
    refine ⟨hroom, ?_⟩
    rw [htake, List.prefix_iff_eq_take.mp hprefix, List.take_take, Nat.min_eq_left hlength,
      take_window _ _ hroom]
  rcases h with rfl | rfl
  · obtain rfl : n = 0 := by simpa [Span.cells] using hn
    exact ⟨[], List.nil_prefix, Nat.le_refl 0, by simp⟩
  · rcases writeableBuffers_cases s.receiveBuffer with hnone | ⟨first, hone⟩ |
      ⟨first, second, htwo⟩
    · rw [hnone] at hn ⊢
      obtain rfl : n = 0 := by simpa using hn
      exact ⟨[], List.nil_prefix, Nat.le_refl 0, by simp⟩
    · rw [hone] at hn ⊢
      simp only [List.map_cons, List.map_nil, spanCells_cons, spanCells_nil, List.append_nil]
        at hn ⊢
      exact ⟨_, wsaBuf_cells_isPrefix first, hn, rfl⟩
    · rw [htwo] at hn hfirst ⊢
      simp only [List.map_cons, List.map_nil, spanCells_cons, spanCells_nil, List.append_nil,
        List.headD_cons] at hn hfirst ⊢
      rcases hfirst with hle | hnarrow
      · refine ⟨_, (wsaBuf_cells_isPrefix first).trans (List.prefix_append _ _),
          by simpa using hle, ?_⟩
        rw [List.take_append_of_le_length (by simpa using hle)]
      · have hwhole : wsaBuf first = first := by
          rw [wsaBuf, Nat.mod_eq_of_lt hnarrow]
        rw [hwhole] at hn ⊢
        exact ⟨_, (List.prefix_append_right_inj _).mpr (wsaBuf_cells_isPrefix second), hn, rfl⟩

/-- What holds while the frame has the token. A receive that was not posted or has failed
ends in a disconnect, and nothing more is asked of it. -/
def Stage (frames : List (List Byte)) (taken : List Byte) (s : Shared) : Frame → Prop
  | .requestReceived .checkDisconnect | .requestReceived .claim => Resting frames taken s
  | .requestRecv _ .prepare => Resting frames taken s
  | .requestRecv _ .addOutstanding | .requestRecv _ .wsaRecv =>
      Resting frames taken s ∧ Describes s s.recvOverlapped.wsaBufs
  | .handleRecvCompletion (.start success n) => success = true → Incoming frames taken s n
  | .handleRecvCompletion (.commitWrite n) => Incoming frames taken s n
  | .handleRecvCompletion (.stamp _) | .handleRecvCompletion (.addRxBytes _)
  | .handleRecvCompletion .checkDisconnect => Aligned frames taken s
  | .handleRecvCompletion .release => False
  | .readReceivedBuffers pc => Aligned frames taken s ∧
      (∀ n, pc = .peek n → n = s.receiveBuffer.size ∧ getHeaderSize ≤ n) ∧
      ∀ n, pc = .pop n → nextFrame s.receiveBuffer.content = .frame n
  | _ => True

structure Idle (frames : List (List Byte)) (taken : List Byte) (s : Shared) : Prop where
  resting : Resting frames taken s
  described : ∀ buffers ∈ s.recvs, Describes s buffers

theorem Idle.congr (h : Idle frames taken s) (hbuffer : s'.receiveBuffer = s.receiveBuffer)
    (hrecvs : s'.recvs = s.recvs) : Idle frames taken s' where
  resting := h.resting.congr hbuffer
  described := by
    rw [hrecvs]
    exact fun buffers hbuffers => (h.described buffers hbuffers).congr hbuffer

theorem Stage.congr (h : Stage frames taken s f) (hbuffer : s'.receiveBuffer = s.receiveBuffer)
    (hover : s'.recvOverlapped = s.recvOverlapped) : Stage frames taken s' f := by
  match f, h with
  | .requestReceived .checkDisconnect, h | .requestReceived .claim, h
  | .requestRecv _ .prepare, h => exact Resting.congr h hbuffer
  | .requestRecv _ .addOutstanding, h | .requestRecv _ .wsaRecv, h =>
    exact ⟨h.1.congr hbuffer, hover ▸ h.2.congr hbuffer⟩
  | .handleRecvCompletion (.start _ n), h => exact fun hsuccess => (h hsuccess).congr hbuffer
  | .handleRecvCompletion (.commitWrite n), h => exact Incoming.congr h hbuffer
  | .handleRecvCompletion (.stamp _), h | .handleRecvCompletion (.addRxBytes _), h
  | .handleRecvCompletion .checkDisconnect, h => exact Aligned.congr h hbuffer
  | .readReceivedBuffers pc, h => exact ⟨h.1.congr hbuffer, hbuffer ▸ h.2⟩
  | .requestReceived .release, _ | .requestReceived .disconnect, _ | .requestRecv _ .undo, _
  | .handleRecvCompletion .rearm, _ | .handleRecvCompletion .drop, _
  | .handleRecvCompletion .disconnect, _ => trivial
  | .sendMessage _ _, _ | .tryPostSendFromQueue _, _ | .startReceiveLoop _, _
  | .handleSendCompletion _, _ | .requestDisconnect _, _ | .tryFireOnDisconnected _, _
  | .handleConnectCompletion _, _ | .connectEx _, _ | .guardCheck, _ | .callback _, _ => trivial

theorem unheld (h : f.Steps choice s s' fs) (hf : Read.token f = 0) (hended : f.ended = 0)
    (hcall : choice.call ≠ some .requestReceived) :
    s'.receiveBuffer = s.receiveBuffer ∧ s'.recvOverlapped = s.recvOverlapped ∧
      s'.recvs = s.recvs ∧
      ∀ g ∈ fs, 0 < Read.token g → g = .requestReceived .checkDisconnect := by
  cases h
  all_goals simp_all [Read.token, Frame.ended]

theorem nested_exec {rest : List Frame} (h : f.Steps choice s s' fs)
    (hnested : Read.Nested (f :: rest)) : Read.Nested (fs ++ rest) := by
  cases h
  all_goals simp_all [Read.Nested, Read.covers, Read.covered]

theorem disconnectRequested_read {pc : ReadReceivedPc}
    (h : (Frame.readReceivedBuffers pc).Steps choice s s' fs) :
    s'.disconnectRequested = s.disconnectRequested := by
  cases h <;> rfl

/-- The steps of `PrepareRecvBuffers` and of the loop over the framer. -/
def judging : Frame → Prop
  | .requestRecv _ .prepare | .readReceivedBuffers _ => True
  | _ => False

theorem Stage.never (h : Stage frames taken s f) (hjudging : judging f)
    (hstep : f.Steps choice s s' fs) (hframes : Frames s.receiveBuffer.capacity frames)
    (hfront : taken <+: frames.flatten) (hcap : 0 < s.receiveBuffer.capacity) :
    .requestDisconnect .claim ∉ fs := by
  cases hstep with
  | recvFull hfull =>
    have hroom := Resting.room h hframes hfront hcap
    omega
  | frameInvalid hinvalid =>
    obtain ⟨haligned, hheader, -⟩ := h
    obtain ⟨rfl, hlong⟩ := hheader _ rfl
    obtain ⟨hpeek, hcheck⟩ := checkHeader_content hlong
    have hnext := hinvalid _ hpeek
    rw [hcheck] at hnext
    rcases haligned.cases hframes hfront hcap with ⟨hneed, -⟩ | ⟨n, hn, -⟩
    · rw [hneed] at hnext
      cases hnext
    · rw [hn] at hnext
      cases hnext
  | popFailed hpop =>
    have hle := decoder.frame_le _ _ (h.2.2 _ rfl)
    rw [RingBuffer.length_content] at hle
    exact absurd (RingBuffer.pop_eq_none.mp hpop) (Nat.not_lt_of_le hle)
  | _ => simp_all [judging]

theorem Stage.read {pc : ReadReceivedPc} (h : Stage frames taken s (.readReceivedBuffers pc))
    (hstep : (Frame.readReceivedBuffers pc).Steps choice s s' fs)
    (hdisc' : s'.disconnectRequested = false) (hrecvs : s.recvs = [])
    (hframes : Frames s.receiveBuffer.capacity frames) (hfront : taken <+: frames.flatten)
    (hcap : 0 < s.receiveBuffer.capacity) :
    Stacks.Settled Read.token (Stage frames taken) (Idle frames taken) s' fs := by
  have hnever := h.never trivial hstep hframes hfront hcap
  obtain ⟨haligned, hheader, hframe⟩ := h
  have hidle : nextFrame s.receiveBuffer.content = .needMore → Idle frames taken s :=
    fun hneed => ⟨⟨haligned, hneed⟩, by simp [hrecvs]⟩
  cases hstep with
  | readRefused hset | packetDropped hset => simp [hset] at hdisc'
  | readAllowed => exact .cons ⟨haligned, by simp, by simp⟩ Nat.one_pos rfl
  | headerMissing hshort =>
    refine .of_idle (hidle (nextFrame_short ?_)) rfl
    rw [RingBuffer.length_content]
    exact hshort
  | headerReadable hlong =>
    refine .cons ⟨haligned, ?_, by simp⟩ Nat.one_pos rfl
    rintro n ⟨⟩
    exact ⟨rfl, hlong⟩
  | frameInvalid | popFailed => simp at hnever
  | frameIncomplete hpeek hneed =>
    obtain ⟨rfl, hlong⟩ := hheader _ rfl
    obtain ⟨hpeek', hcheck⟩ := checkHeader_content hlong
    obtain rfl := Option.some.inj (hpeek.symm.trans hpeek')
    exact .of_idle (hidle (hcheck.symm.trans hneed)) rfl
  | frameComplete hpeek hcomplete =>
    obtain ⟨rfl, hlong⟩ := hheader _ rfl
    obtain ⟨hpeek', hcheck⟩ := checkHeader_content hlong
    obtain rfl := Option.some.inj (hpeek.symm.trans hpeek')
    refine .cons ⟨haligned, by simp, ?_⟩ Nat.one_pos rfl
    rintro n ⟨⟩
    exact hcheck.symm.trans hcomplete
  | @popped n bytes q hpop =>
    obtain ⟨-, -, hconsume⟩ := RingBuffer.pop_eq_some hpop
    refine .cons ⟨?_, by simp, by simp⟩ Nat.one_pos rfl
    rcases haligned.cases hframes hfront hcap with ⟨hneed, -⟩ | ⟨m, hm, hnext⟩
    · rw [hframe n rfl] at hneed
      cases hneed
    · obtain rfl : m = n := by simpa [hm] using hframe n rfl
      exact hnext q hconsume
  | packetKept => exact .cons ⟨haligned, by simp, by simp⟩ Nat.one_pos rfl
  | delivered => exact .skip (.cons ⟨haligned, by simp, by simp⟩ Nat.one_pos rfl) rfl

theorem Stage.exec (h : Stage frames taken s f) (htoken : 0 < Read.token f)
    (hstep : f.Steps choice s s' fs) (hdisc' : s'.disconnectRequested = false)
    (hrecvs : s.recvs = []) (hframes : Frames s.receiveBuffer.capacity frames)
    (hfront : taken <+: frames.flatten) (hcap : 0 < s.receiveBuffer.capacity)
    (hzero : s.recvOverlapped.isZeroByte = true → f.needed s = 0) :
    Stacks.Settled Read.token (Stage frames taken) (Idle frames taken) s' fs := by
  have hnever := fun hjudging => h.never hjudging hstep hframes hfront hcap
  have hidle : Resting frames taken s → Idle frames taken s :=
    fun hresting => ⟨hresting, by simp [hrecvs]⟩
  cases f with
  | readReceivedBuffers pc => exact h.read hstep hdisc' hrecvs hframes hfront hcap
  | requestReceived pc =>
    cases hstep with
    | receiveRefused hset => simp [hset] at hdisc'
    | receiveAllowed => exact .cons h Nat.one_pos rfl
    | recvBusy => exact .of_idle (hidle h) rfl
    | recvClaimed => exact .cons (Resting.congr h rfl) Nat.one_pos rfl
    | recvReleased => exact .cons trivial Nat.one_pos rfl
    | recvDisconnectLost hset => simp [hset] at hdisc'
    | recvDisconnectWon => simp at hdisc'
  | requestRecv zeroByte pc =>
    cases hstep with
    | zeroByteNoSocket | recvNoSocket => exact .cons trivial Nat.one_pos rfl
    | zeroBytePrepared => exact .cons ⟨Resting.congr h rfl, .inl rfl⟩ Nat.one_pos rfl
    | recvFull => simp [judging] at hnever
    | recvPrepared => exact .cons ⟨Resting.congr h rfl, .inr rfl⟩ Nat.one_pos rfl
    | recvAdded => exact .cons ⟨Resting.congr h.1 rfl, h.2⟩ Nat.one_pos rfl
    | recvPosted =>
      refine .of_idle ⟨Resting.congr h.1 rfl, ?_⟩ rfl
      intro buffers hbuffers
      rw [hrecvs] at hbuffers
      obtain rfl := List.mem_singleton.mp hbuffers
      exact h.2
    | recvFailed => exact .cons trivial Nat.one_pos rfl
    | zeroByteUndone | recvUndone => exact .cons trivial Nat.one_pos rfl
  | handleRecvCompletion pc =>
    cases hstep with
    | recvCompletedBadly | peerClosed => exact .cons trivial Nat.one_pos rfl
    | zeroByteArrived =>
      obtain ⟨old, data, htaken, hlength, -, -, hresting⟩ := h rfl
      obtain rfl := List.length_eq_zero_iff.mp hlength
      rw [List.append_nil] at htaken
      exact .cons (htaken ▸ hresting) Nat.one_pos rfl
    | zeroByteCarried hset hn => exact absurd (hzero hset) hn
    | dataArrived => exact .cons (h rfl) Nat.one_pos rfl
    | commitFailed hfull =>
      obtain ⟨-, -, -, -, hroom, -⟩ := h
      exact absurd (RingBuffer.commitWrite_eq_none.mp hfull) (Nat.not_lt_of_le hroom)
    | committed hroom => exact .cons (Incoming.commit h hroom) Nat.one_pos rfl
    | stamped | addedRxBytes => exact .cons (Aligned.congr h rfl) Nat.one_pos rfl
    | recvDropped hset => simp [hset] at hdisc'
    | recvRead =>
      exact .cons ⟨h, by simp, by simp⟩ Nat.one_pos rfl
    | rearmed => cases htoken
    | dropped => exact .cons trivial Nat.one_pos rfl
    | released => cases h
    | dropDisconnectLost hset => simp [hset] at hdisc'
    | dropDisconnectWon => simp at hdisc'
  | _ => cases htoken

theorem Idle.exec (h : Idle frames taken s) (hbuffer : s'.receiveBuffer = s.receiveBuffer)
    (hrecvs : s'.recvs = s.recvs)
    (hfs : ∀ g ∈ fs, 0 < Read.token g → g = .requestReceived .checkDisconnect) :
    Stacks.Settled Read.token (Stage frames taken) (Idle frames taken) s' fs := by
  have hidle := h.congr hbuffer hrecvs
  refine ⟨fun g hg hpos => ?_, fun _ => hidle⟩
  obtain rfl := hfs g hg hpos
  exact hidle.resting

theorem Idle.complete (h : Idle frames taken s) {index : Nat} {buffers : List Span}
    {data : List Byte} (hpending : s.recvs[index]? = some buffers)
    (hlength : data.length ≤ (spanCells buffers).length)
    (hfirst : data.length ≤ (buffers.headD ⟨0, 0⟩).length ∨
      (s.receiveBuffer.getWriteableBuffers.2.headD ⟨0, 0⟩).length < 2 ^ 32) (success : Bool) :
    Stage frames (taken ++ Event.brings (.recvCompletion index success data))
      { s with
        recvs := s.recvs.eraseIdx index
        receiveBuffer := s.receiveBuffer.fill (spanCells buffers) data }
      (.handleRecvCompletion (.start success data.length)) := by
  rintro rfl
  obtain ⟨hroom, htake⟩ := (h.described buffers (List.mem_of_getElem? hpending)).take hlength hfirst
  obtain ⟨hcontent, hstored⟩ := RingBuffer.fill_front (spanCells buffers) hroom htake
  obtain ⟨⟨delivered, rest, hsplit, hold⟩, hneed⟩ := h.resting
  refine ⟨taken, data, rfl, rfl, by simpa using hroom, by simpa using hstored, ?_, ?_⟩
  · exact ⟨delivered, rest, hsplit, by simpa only [hcontent] using hold⟩
  · simpa only [hcontent] using hneed

end

variable {ok : World → Label → Prop}

theorem nested {w : World} (hw : system.Reach ok w) : ∀ t ∈ w.threads, Read.Nested t.frames := by
  refine Machine.invariant (m := machine) (I := fun w => ∀ t ∈ w.threads, Read.Nested t.frames)
    ?_ ?_ ?_ hw
  · intro s _ t ht
    cases ht
  · intro w tid choice t s' t' _ ih _ hthread hrun
    refine forall_mem_set ih ?_
    cases Thread.ran_of_run hrun with
    | @exec f rest hframes =>
      have hold := ih t (List.mem_of_getElem? hthread)
      rw [hframes] at hold
      exact nested_exec (f.steps_exec choice w.shared) hold
    | release hframes hguard =>
      simp only [Shared.release]
      split <;> simp [Read.Nested, Read.covers]
  · intro w event s' t' _ ih _ hspawn
    refine forall_mem_append_singleton ih ?_
    cases Shared.arrived_of_arrive hspawn with
    | call call => cases call <;> simp [ApiCall.frame, Read.Nested, Read.covers]
    | _ => simp [Read.Nested, Read.covers]

theorem recvs_add_token_le {w : World} (hw : system.Reach loopOnly w) :
    w.shared.recvs.length + w.weigh Read.token ≤ w.shared.receiveLoopStarted.toNat := by
  have harm := recvs_add_arm_le hw
  have hle : w.weigh Read.token ≤ w.weigh Frame.arm := tally_le_tally fun t ht => by
    have := (nested hw t ht).tally_token_le
    omega
  omega

variable {frames : List (List Byte)} {w : Fed World Byte}

theorem reach_loopOnly (hw : (fedSession frames.flatten).Reach keepsOrder w) :
    system.Reach loopOnly w.state :=
  reach_state (fun _ _ hok => hok.1) hw

theorem staged (hw : (fedSession frames.flatten).Reach keepsOrder w)
    (hframes : Frames w.state.shared.receiveBuffer.capacity frames)
    (hcap : 0 < w.state.shared.receiveBuffer.capacity)
    (hdisc : w.state.shared.disconnectRequested = false) :
    Stacks.Staged Read.token (Stage frames w.taken) (Idle frames w.taken) w.state.stacks := by
  refine fed_token (P := fun capacity => Frames capacity frames ∧ 0 < capacity)
    rfl ?_ ?_ ?_ ?_ ?_ ?_ hw ⟨hframes, hcap⟩ hdisc
  · intro w hw _ _
    have hle := recvs_add_token_le (reach_loopOnly hw)
    have hstarted : w.state.shared.receiveLoopStarted.toNat ≤ 1 := Bool.toNat_le _
    omega
  · rintro s ⟨receiveBuffer, sendBuffer, socket, hempty, -, rfl⟩
    have hcontent : receiveBuffer.content = [] :=
      List.length_eq_zero_iff.mp (RingBuffer.length_content.trans hempty)
    refine ⟨⟨⟨[], frames, rfl, ?_⟩, ?_⟩, ?_⟩
    · simp [Shared.initial, hcontent]
    · simp [Shared.initial, hcontent, nextFrame]
    · simp [Shared.initial]
  · intro w taken tid choice t f rest hreach hok hthread hframes hP hdisc' hpos hstage
    have hloop := reach_loopOnly hreach
    have hle : Read.token f ≤ w.weigh Read.token := World.weight_le_weigh hthread hframes
    have htoken := recvs_add_token_le hloop
    have hstarted : w.shared.receiveLoopStarted.toNat ≤ 1 := Bool.toNat_le _
    have hnone : w.shared.recvs = [] := List.length_eq_zero_iff.mp (by simp only at htoken; omega)
    refine hstage.exec hpos (f.steps_exec choice w.shared) hdisc' hnone hP.1 (taken_front hreach)
      hP.2 fun hzero => ?_
    have hneeded : f.needed w.shared ≤ w.weigh (Frame.needed w.shared) :=
      World.weight_le_weigh hthread hframes
    have hfits := (fits hloop).zeroByte hzero
    simp only at hfits
    omega
  · intro w taken tid choice t f rest hreach hok hthread hframes _ hdisc' hzero
    have hloop := reach_loopOnly hreach
    have hdisc := disconnectRequested_of_exec hdisc'
    have hended : f.ended = 0 := by
      have hle : f.ended ≤ w.weigh Frame.ended := World.weight_le_weigh hthread hframes
      have hnone := (ended_eq_zero hloop hdisc).2
      simp only at hnone
      omega
    obtain ⟨hbuffer, hover, hrecvs, hfs⟩ :=
      unheld (f.steps_exec choice w.shared) hzero hended hok.1
    exact ⟨fun g _ hg => hg.congr hbuffer hover, fun hidle => hidle.exec hbuffer hrecvs hfs⟩
  · exact fun taken s => ⟨fun g hg => hg.congr rfl rfl, fun hidle => hidle.congr rfl rfl⟩
  · intro w taken event s' t' hreach hok harrived _ _
    cases harrived with
    | call call =>
      simp only [Event.brings, List.append_nil]
      refine ⟨fun _ g _ hg => hg, fun _ hidle => .of_idle hidle ?_⟩
      cases call with
      | requestReceived => exact absurd rfl hok.1
      | _ => rfl
    | recvCompletion hpending hlength =>
      have htoken := recvs_add_token_le (reach_loopOnly hreach)
      have hstarted : w.shared.receiveLoopStarted.toNat ≤ 1 := Bool.toNat_le _
      obtain ⟨hlt, -⟩ := List.getElem?_eq_some_iff.mp hpending
      simp only at htoken
      refine ⟨fun hsome => by omega, fun _ hidle => ?_⟩
      exact .cons (hidle.complete hpending hlength (hok.2 _ hpending) _) Nat.one_pos rfl
    | connectEx | sendCompletion | connectCompletion =>
      simp only [Event.brings, List.append_nil]
      exact ⟨fun _ g _ hg => hg.congr rfl rfl, fun _ hidle => .of_idle (hidle.congr rfl rfl) rfl⟩

/-- What the session does for a peer that keeps to the format: what was received always
fits, every turn of the framer leaves room for the next receive, and neither the framer
nor the preparation of a receive requests the disconnect. -/
structure NeverFull (w : World) : Prop where
  commits : ∀ l n, w.commits l = some n → (w.shared.receiveBuffer.commitWrite n).isSome
  room : w.shared.disconnectRequested = false → ∀ tid choice pc,
    w.runs (.run tid choice) = some (.readReceivedBuffers pc) →
    ((Frame.readReceivedBuffers pc).exec choice w.shared).2 = [] →
      0 < ((Frame.readReceivedBuffers pc).exec choice w.shared).1.receiveBuffer.canWriteSize
  never : w.shared.disconnectRequested = false → ∀ tid choice f,
    w.runs (.run tid choice) = some f → judging f →
      .requestDisconnect .claim ∉ (f.exec choice w.shared).2

theorem token_pos_of_judging {f : Frame} (h : judging f) : 0 < Read.token f := by
  unfold judging at h
  split at h
  · exact Nat.one_pos
  · exact Nat.one_pos
  · cases h

theorem receive_ring_never_full {frames : List (List Byte)} {w : Fed World Byte}
    (hw : (fedSession frames.flatten).Reach keepsOrder w)
    (hcap : 4 ≤ w.state.shared.receiveBuffer.capacity)
    (hframes : Frames w.state.shared.receiveBuffer.capacity frames) : NeverFull w.state := by
  have hloop := reach_loopOnly hw
  have hstages : w.state.shared.disconnectRequested = false → ∀ tid choice f,
      w.state.runs (.run tid choice) = some f → judging f → Stage frames w.taken w.state.shared f ∧
        w.state.shared.recvs = [] := by
    intro hdisc tid choice f hruns hjudging
    obtain ⟨tid, t, rest, hthread, hrest⟩ := exists_thread_of_runs hruns
    have hpos := token_pos_of_judging hjudging
    have htoken := recvs_add_token_le hloop
    have hle : Read.token f ≤ w.state.weigh Read.token := World.weight_le_weigh hthread hrest
    have hstarted : w.state.shared.receiveLoopStarted.toNat ≤ 1 := Bool.toNat_le _
    refine ⟨?_, List.length_eq_zero_iff.mp (by omega)⟩
    apply (staged hw hframes (by omega) hdisc).stage t.frames ?_ f ?_ hpos
    · exact List.mem_map_of_mem (List.mem_of_getElem? hthread)
    · rw [hrest]
      exact List.mem_cons_self
  refine ⟨(receive_stays_armed hloop).2, ?_, ?_⟩
  · intro hdisc tid choice pc hruns hreturns
    obtain ⟨hstage, hrecvs⟩ := hstages hdisc tid choice _ hruns trivial
    have hstep := (Frame.readReceivedBuffers pc).steps_exec choice w.state.shared
    have hdisc' : ((Frame.readReceivedBuffers pc).exec choice
        w.state.shared).1.disconnectRequested = false :=
      (disconnectRequested_read hstep).trans hdisc
    have hidle := (hstage.read hstep hdisc' hrecvs hframes (taken_front hw) (by omega)).idle
      (by rw [hreturns]; rfl)
    rw [← hstep.capacity] at hframes hcap
    exact hidle.resting.room hframes (taken_front hw) (by omega)
  · intro hdisc tid choice f hruns hjudging
    exact (hstages hdisc tid choice f hruns hjudging).1.never hjudging
      (f.steps_exec choice w.state.shared) hframes (taken_front hw) (by omega)

def shortFrame : List Byte := [0, 4, 7, 0]

/-- The frame fills a ring of 4 bytes, and is delivered. -/
def fillingRun : List Label :=
  .spawn (.call .startReceiveLoop) :: Label.goes 0 7 ++
    .spawn (.recvCompletion 0 true []) :: Label.goes 1 5 ++
    .spawn (.recvCompletion 0 true shortFrame) :: Label.goes 2 13

theorem receive_ring_never_full_of_filling : ∃ w : Fed World Byte,
    (fedSession [shortFrame].flatten).runUnder keepsOrder ⟨World.fresh 4 16, []⟩ fillingRun =
      some w ∧ w.state.shared.log.length = 1 ∧ NeverFull w.state := by
  obtain ⟨w, hrun, htest⟩ := System.exists_of_runUnder (fedSession [shortFrame].flatten) keepsOrder
    ⟨World.fresh 4 16, []⟩ fillingRun (fun w => decide (w.state.shared.log.length = 1 ∧
      w.state.shared.receiveBuffer.capacity = 4)) (by decide)
  obtain ⟨hlog, hcapacity⟩ := of_decide_eq_true htest
  have hinit : (fedSession [shortFrame].flatten).Reach keepsOrder ⟨World.fresh 4 16, []⟩ :=
    .init ⟨⟨⟨_, _, _, rfl, rfl, rfl⟩, rfl⟩, rfl⟩
  refine ⟨w, hrun, hlog, receive_ring_never_full (hinit.of_runUnder hrun) ?_ ?_⟩
  · rw [hcapacity]
  · rw [hcapacity]
    intro f hf
    obtain rfl := List.mem_singleton.mp hf
    decide

/-- A ring of 2^32 + 4 bytes that stands at its fifth: its free room is a block of 2^32
bytes up to the end and one of 4 bytes from the start. -/
def wideRing : CircleBufferQueue where
  buffer := List.replicate (2 ^ 32 + 4) 0
  head := 4
  tail := 4
  size := 0
  size_le := Nat.zero_le _
  tail_lt := .inl (by rw [List.length_replicate]; omega)
  head_eq := by
    rw [List.length_replicate]
    exact (Nat.mod_eq_of_lt (by omega)).symm

theorem wideRing_capacity : wideRing.capacity = 2 ^ 32 + 4 := List.length_replicate

theorem wideRing_writeableBuffers :
    wideRing.getWriteableBuffers = (2 ^ 32 + 4, [⟨4, 2 ^ 32⟩, ⟨0, 4⟩]) := by
  have hroom : wideRing.canWriteSize = 2 ^ 32 + 4 := by
    rw [RingBuffer.canWriteSize, wideRing_capacity]
    rfl
  have hfirst : min (2 ^ 32 + 4) (2 ^ 32 + 4 - wideRing.head) = 2 ^ 32 := by
    have hhead : wideRing.head = 4 := rfl
    omega
  rw [RingBuffer.getWriteableBuffers, hroom, if_neg (by omega), RingBuffer.blocks,
    wideRing_capacity]
  simp only [hfirst]
  rw [if_pos (by omega)]
  rfl

theorem wideRing_misplaced {q : RingBuffer}
    (hq : (wideRing.fill (spanCells [⟨4, 0⟩, ⟨0, 4⟩]) shortFrame).commitWrite 4 = some q) :
    q.size = 4 ∧ q.peek getHeaderSize = some [0, 0] := by
  obtain ⟨-, hbuffer, htail, hsize⟩ := RingBuffer.commitWrite_eq_some.mp hq
  have hsize4 : q.size = 4 := hsize
  have hcapacity : q.capacity = 2 ^ 32 + 4 := by
    rw [RingBuffer.capacity, hbuffer, ← RingBuffer.capacity, RingBuffer.fill_capacity,
      wideRing_capacity]
  have hcell : ∀ c, c ∉ [0, 1, 2, 3] → q.buffer.getD c default = 0 := by
    intro c hc
    rw [hbuffer, RingBuffer.fill_buffer]
    refine (getD_scatter_of_not_mem _ _ hc).trans ?_
    rw [wideRing, List.getD_eq_getElem?_getD, List.getElem?_replicate]
    split <;> rfl
  have htail4 : q.tail = 4 := htail
  refine ⟨hsize4, ?_⟩
  rw [RingBuffer.peek_eq, hsize4, if_neg (by decide), RingBuffer.content, hcapacity, htail4,
    hsize4, window_eq_range'_of_fits (by omega), ← gather_take]
  have hheader : (List.range' 4 4).take getHeaderSize = [4, 5] := rfl
  rw [hheader, gather, List.map_cons, List.map_cons, List.map_nil, hcell 4 (by decide),
    hcell 5 (by decide)]

theorem reach_alone {stream : List Byte} {ok : Fed World Byte → Label → Prop} {s s' : Shared}
    {pool : List Thread} {taken : List Byte}
    (hw : (fedSession stream).Reach ok ⟨⟨s, pool⟩, taken⟩) (tid : Nat) {guard : Option IoKind}
    {fs fs' : List Frame} (hthread : pool[tid]? = some ⟨guard, fs⟩) {choices : List Choice}
    (hok : ∀ choice ∈ choices, ∀ w, ok w (.run tid choice))
    (halone : alone choices s fs = (s', fs')) :
    (fedSession stream).Reach ok ⟨⟨s', pool.set tid ⟨guard, fs'⟩⟩, taken⟩ := by
  have hsame : pool.set tid ⟨guard, fs⟩ = pool := by
    obtain ⟨hlt, hget⟩ := List.getElem?_eq_some_iff.mp hthread
    rw [← hget]
    exact List.set_getElem_self hlt
  induction choices generalizing s pool fs with
  | nil =>
    cases halone
    rwa [hsame]
  | cons choice choices ih =>
    cases fs with
    | nil =>
      rw [alone_nil] at halone
      cases halone
      rwa [hsame]
    | cons f rest =>
      have hlt := (List.getElem?_eq_some_iff.mp hthread).1
      have hnext := reach_run hw (hok choice List.mem_cons_self _) hthread
        (show Thread.run choice s ⟨guard, f :: rest⟩ = some _ from rfl)
      have hlater := ih hnext (by simp [hlt]) (fun c hc => hok c (List.mem_cons_of_mem _ hc))
        halone (by simp)
      simpa using hlater

def wideSession (recvOverlapped : OverlappedEx) (outstandingIoCount : Int)
    (recvs : List (List Span)) : Shared :=
  { Shared.initial wideRing (CircleBufferQueue.create 16) .opened with
    receiveLoopStarted := true
    recvInProgress := true
    recvOverlapped := recvOverlapped
    outstandingIoCount := outstandingIoCount
    recvs := recvs
    receivePosted := true }

theorem alone_startReceiveLoop :
    alone (List.replicate 7 ⟨true, 0, none⟩)
        (Shared.initial wideRing (CircleBufferQueue.create 16) .opened)
        [.startReceiveLoop .checkDisconnect] =
      (wideSession ⟨[⟨0, 0⟩], 0, true⟩ 1 [[⟨0, 0⟩]], []) := rfl

theorem alone_zeroByteArrived :
    alone (List.replicate 4 ⟨true, 0, none⟩) (wideSession ⟨[⟨0, 0⟩], 0, true⟩ 1 [])
        [.handleRecvCompletion (.start true 0)] =
      (wideSession ⟨[⟨4, 0⟩, ⟨0, 4⟩], 0, false⟩ 2 [[⟨4, 0⟩, ⟨0, 4⟩]], []) := by
  simp [alone, Frame.exec, handleRecvCompletion, requestRecv, wideRing_writeableBuffers,
    Shared.initial, wsaBuf, Shared.posts, wideSession]

theorem alone_dataArrived {s : Shared} {q : RingBuffer}
    (hs : s.recvOverlapped.isZeroByte = false) (hdisc : s.disconnectRequested = false)
    (hq : s.receiveBuffer.commitWrite 4 = some q) (hsize : q.size = 4) :
    ∃ s', alone (List.replicate 7 ⟨true, 0, none⟩) s [.handleRecvCompletion (.start true 4)] =
        (s', [.readReceivedBuffers (.peek 4), .handleRecvCompletion .rearm]) ∧
      s'.receiveBuffer = q ∧ s'.disconnectRequested = false := by
  refine ⟨{ s with receiveBuffer := q, lastRecvTimeMs := 0, totalRxBytes := s.totalRxBytes + 4 },
    ?_, rfl, hdisc⟩
  simp [alone, Frame.exec, handleRecvCompletion, readReceivedBuffers, hs, hdisc, hq,
    RingBuffer.canReadSize, hsize, getHeaderSize]

/-- A ring of 2^32 + 4 bytes and a peer that sends one frame of 4 bytes. The first free
block is posted with length 0, so the frame is stored in the second one, and the framer
ends the session. -/
theorem not_receive_ring_never_full : ∃ (frames : List (List Byte)) (w : Fed World Byte),
    (fedSession frames.flatten).Reach (fun w l => loopOnly w.state l) w ∧
      4 ≤ w.state.shared.receiveBuffer.capacity ∧
      Frames w.state.shared.receiveBuffer.capacity frames ∧ ¬ NeverFull w.state := by
  let ok : Fed World Byte → Label → Prop := fun w l => loopOnly w.state l
  let stream : List Byte := [shortFrame].flatten
  have hgoes : ∀ tid steps, ∀ choice ∈ List.replicate steps (⟨true, 0, none⟩ : Choice),
      ∀ w, ok w (.run tid choice) := by
    intro tid steps choice hchoice w
    rw [List.eq_of_mem_replicate hchoice]
    simp [ok, loopOnly]
  have hinit : (fedSession stream).Reach ok
      ⟨⟨Shared.initial wideRing (CircleBufferQueue.create 16) .opened, []⟩, []⟩ :=
    .init ⟨⟨⟨_, _, _, rfl, rfl, rfl⟩, rfl⟩, rfl⟩
  have hcalled := reach_spawn hinit
    (show ok _ (.spawn (.call .startReceiveLoop)) by simp [ok, loopOnly]) List.nil_prefix rfl
  have hzeroByte : (fedSession stream).Reach ok
      ⟨⟨wideSession ⟨[⟨0, 0⟩], 0, true⟩ 1 [[⟨0, 0⟩]], [⟨none, []⟩]⟩, []⟩ :=
    reach_alone hcalled 0 rfl (hgoes 0 7) alone_startReceiveLoop
  have hready : (fedSession stream).Reach ok
      ⟨⟨wideSession ⟨[⟨0, 0⟩], 0, true⟩ 1 [],
        [⟨none, []⟩, ⟨some .recv, [.handleRecvCompletion (.start true 0)]⟩]⟩, []⟩ :=
    reach_spawn hzeroByte (show ok _ (.spawn (.recvCompletion 0 true [])) by simp [ok, loopOnly])
      List.nil_prefix rfl
  have hposted : (fedSession stream).Reach ok
      ⟨⟨wideSession ⟨[⟨4, 0⟩, ⟨0, 4⟩], 0, false⟩ 2 [[⟨4, 0⟩, ⟨0, 4⟩]],
        [⟨none, []⟩, ⟨some .recv, []⟩]⟩, []⟩ :=
    reach_alone hready 1 rfl (hgoes 1 4) alone_zeroByteArrived
  let s : Shared := { wideSession ⟨[⟨4, 0⟩, ⟨0, 4⟩], 0, false⟩ 2 [] with
    receiveBuffer := wideRing.fill (spanCells [⟨4, 0⟩, ⟨0, 4⟩]) shortFrame }
  have harrived : (fedSession stream).Reach ok
      ⟨⟨s, [⟨none, []⟩, ⟨some .recv, []⟩,
        ⟨some .recv, [.handleRecvCompletion (.start true 4)]⟩]⟩, stream⟩ :=
    reach_spawn hposted
      (show ok _ (.spawn (.recvCompletion 0 true shortFrame)) by simp [ok, loopOnly])
      (List.prefix_refl _) rfl
  obtain ⟨q, hq⟩ := RingBuffer.exists_commitWrite
    (q := wideRing.fill (spanCells [⟨4, 0⟩, ⟨0, 4⟩]) shortFrame) (n := 4) (by
      rw [RingBuffer.fill_canWriteSize, ← RingBuffer.getWriteableBuffers_fst,
        wideRing_writeableBuffers]
      decide)
  obtain ⟨hsize, hpeek⟩ := wideRing_misplaced hq
  obtain ⟨s', halone, hbuffer, hdisc⟩ := alone_dataArrived (s := s) rfl rfl hq hsize
  have hread := reach_alone harrived 2 rfl (hgoes 2 7) halone
  have hcapacity : s'.receiveBuffer.capacity = 2 ^ 32 + 4 := by
    rw [hbuffer, RingBuffer.capacity, (RingBuffer.commitWrite_eq_some.mp hq).2.1,
      ← RingBuffer.capacity, RingBuffer.fill_capacity, wideRing_capacity]
  refine ⟨[shortFrame], _, hread, ?_, ?_, fun h => ?_⟩
  · simp only [hcapacity]
    omega
  · intro f hf
    obtain rfl := List.mem_singleton.mp hf
    refine ⟨by decide, ?_⟩
    simp only [hcapacity, shortFrame, List.length_cons, List.length_nil]
    omega
  · refine h.never hdisc 2 ⟨true, 0, none⟩ (.readReceivedBuffers (.peek 4)) rfl trivial ?_
    have hinvalid : checkHeader 4 [0, 0] = .invalid := by decide
    simp [Frame.exec, readReceivedBuffers, hbuffer, hpeek, hinvalid]

end FastPort.Sessions.WellBehaved
