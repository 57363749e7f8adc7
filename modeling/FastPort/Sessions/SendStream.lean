import FastPort.Sessions.Drain
import Mathlib.Data.List.GetD

/-! The send side as a byte stream. What the completed sends have transferred,
followed by the content of the send ring, is the concatenation of the accepted
messages, except for cells that a sender has reserved and not yet written. The
invariant needs at most one send between the reading of the ring and the removal
of what was sent, and no reservation unwritten when the ring is read. -/
namespace FastPort.Sessions

open FastPort.Commons FastPort.Foundation.Circular FastPort.Foundation.Pool
open FastPort.Foundation.Tally FastPort.Foundation.Transition
open FastPort.Foundation.Transition.System

def Shared.stream (s : Shared) : List Byte :=
  encodings s.accepted

namespace Frame

/-- What a sender has reserved and not yet written: the cursor into its blocks,
and the bytes to come. -/
def unwritten : Frame → Option (List Span × Nat × List Byte)
  | sendMessage m (.writeSize buffers) => some (buffers, 0, m.encode)
  | sendMessage m (.writeId buffers offsetInSpan) =>
      some (buffers, offsetInSpan, m.idBytes ++ m.body)
  | sendMessage m (.writeBody buffers offsetInSpan) => some (buffers, offsetInSpan, m.body)
  | _ => none

/-- The cells of the send ring that a frame has still to write. -/
def reserved (f : Frame) : List Nat :=
  match f.unwritten with
  | some (buffers, offsetInSpan, _) => cellsFrom buffers offsetInSpan
  | none => []

def reserves (c : Nat) (f : Frame) : Nat :=
  if c ∈ f.reserved then 1 else 0

def writing (f : Frame) : Nat :=
  f.unwritten.isSome.toNat

def holds (s : Shared) : Frame → Option (List Span)
  | tryPostSendFromQueue (.prepare _ buffers) => some (buffers.map wsaBuf)
  | tryPostSendFromQueue .addOutstanding | tryPostSendFromQueue .wsaSend =>
      some s.sendOverlapped.wsaBufs
  | _ => none

def draining : Frame → Nat
  | handleSendCompletion (.start true bytesTransferred) => bytesTransferred
  | handleSendCompletion (.consume bytesTransferred) => bytesTransferred
  | _ => 0

def underWay : Frame → Nat
  | tryPostSendFromQueue (.prepare _ _) | tryPostSendFromQueue .addOutstanding
  | tryPostSendFromQueue .wsaSend => 1
  | handleSendCompletion (.start true bytesTransferred)
  | handleSendCompletion (.consume bytesTransferred) => if bytesTransferred = 0 then 0 else 1
  | _ => 0

def touches : Frame → Bool
  | sendMessage _ .checkDisconnect => false
  | sendMessage _ _ => true
  | tryPostSendFromQueue .getReadBuffers | tryPostSendFromQueue (.prepare _ _)
  | tryPostSendFromQueue .addOutstanding | tryPostSendFromQueue .wsaSend => true
  | handleSendCompletion (.start _ _) | handleSendCompletion (.consume _) => true
  | tryFireOnDisconnected .clearSend => true
  | _ => false

structure Inert (s : Shared) (f : Frame) : Prop where
  unwritten : f.unwritten = none
  holds : f.holds s = none
  draining : f.draining = 0

variable {choice : Choice} {s s' : Shared} {f : Frame} {fs : List Frame}

theorem underWay_of_holds {spans : List Span} (h : f.holds s = some spans) : f.underWay = 1 := by
  unfold holds at h
  unfold underWay
  split at h <;> simp_all

theorem holds_congr (f : Frame) (h : s'.sendOverlapped = s.sendOverlapped) :
    f.holds s' = f.holds s := by
  unfold holds
  rw [h]

theorem draining_eq_zero (h : f.underWay = 0) : f.draining = 0 := by
  unfold underWay at h
  unfold draining
  split <;> simp_all

theorem Inert.reserved (h : f.Inert s) : f.reserved = [] := by
  unfold Frame.reserved
  rw [h.unwritten]

theorem Inert.reserves (h : f.Inert s) (c : Nat) : f.reserves c = 0 := by
  simp [Frame.reserves, h.reserved]

theorem Steps.untouched (h : f.Steps choice s s' fs) (hf : f.touches = false) :
    s'.sendBuffer = s.sendBuffer ∧ s'.accepted = s.accepted ∧ s'.transferred = s.transferred ∧
      s'.sends = s.sends ∧ s'.sendOverlapped = s.sendOverlapped ∧ f.Inert s ∧
      ∀ g ∈ fs, g.Inert s' := by
  cases h
  all_goals simp [touches] at hf
  all_goals refine ⟨rfl, rfl, rfl, rfl, rfl, ⟨rfl, rfl, rfl⟩, ?_⟩
  all_goals simp
  all_goals first | exact ⟨rfl, rfl, rfl⟩ | exact ⟨⟨rfl, rfl, rfl⟩, ⟨rfl, rfl, rfl⟩⟩

end Frame

/-- A sender's cursor stands `q` bytes into the ring's content, and the bytes it
has still to write are the ones the stream has there. -/
structure Reserved (s : Shared) (consumed q : Nat) (buffers : List Span) (offsetInSpan : Nat)
    (data : List Byte) : Prop where
  fits : q + data.length ≤ s.sendBuffer.size
  cursor : CursorOk buffers offsetInSpan
  cells : cellsFrom buffers offsetInSpan =
    window s.sendBuffer.capacity (s.sendBuffer.tail + q) data.length
  data_eq : data = (s.stream.drop (consumed + q)).take data.length

/-- Buffers that hold the `n` oldest bytes of the ring, up to the end of a message. -/
structure Leading (s : Shared) (consumed n : Nat) (buffers : List Span) : Prop where
  cells : spanCells buffers = window s.sendBuffer.capacity s.sendBuffer.tail n
  boundary : ∃ j, j ≤ s.accepted.length ∧
    consumed + n = (encodings (s.accepted.take j)).length

theorem Reserved.mono {s s' : Shared} {consumed q : Nat} {buffers : List Span} {off : Nat}
    {data : List Byte} (h : Reserved s consumed q buffers off data)
    (hcap : s'.sendBuffer.capacity = s.sendBuffer.capacity)
    (htail : s'.sendBuffer.tail = s.sendBuffer.tail)
    (hsize : s.sendBuffer.size ≤ s'.sendBuffer.size)
    (hstream : consumed + s.sendBuffer.size ≤ s.stream.length) (hmore : s.stream <+: s'.stream) :
    Reserved s' consumed q buffers off data := by
  have hfits := h.fits
  refine ⟨hfits.trans hsize, h.cursor, ?_, ?_⟩
  · rw [h.cells, hcap, htail]
  · obtain ⟨more, hmore⟩ := hmore
    rw [← hmore, List.drop_append_of_le_length (by omega),
      List.take_append_of_le_length (by rw [List.length_drop]; omega)]
    exact h.data_eq

theorem Reserved.advance {s : Shared} {consumed q : Nat} {buffers buffers' : List Span}
    {off off' k : Nat} {data : List Byte} (h : Reserved s consumed q buffers off data)
    (hk : k ≤ data.length) (hcursor : CursorOk buffers' off')
    (hcells : cellsFrom buffers' off' = (cellsFrom buffers off).drop k) :
    Reserved s consumed (q + k) buffers' off' (data.drop k) := by
  have hfits := h.fits
  refine ⟨?_, hcursor, ?_, ?_⟩
  · rw [List.length_drop]
    omega
  · rw [hcells, h.cells, drop_window _ _ hk, List.length_drop, Nat.add_assoc]
  · rw [List.length_drop, ← Nat.add_assoc, ← List.drop_drop, ← List.drop_take, ← h.data_eq]

theorem Reserved.getElem?_eq {s : Shared} {consumed q : Nat} {buffers : List Span} {off i : Nat}
    {data : List Byte} (h : Reserved s consumed q buffers off data) (hq : q ≤ i)
    (hi : i < q + data.length) : data[i - q]? = s.stream[consumed + i]? := by
  conv_lhs => rw [h.data_eq]
  rw [List.getElem?_take_of_lt (by omega), List.getElem?_drop]
  congr 1
  omega

theorem Leading.mono {s s' : Shared} {consumed n : Nat} {buffers : List Span}
    (h : Leading s consumed n buffers)
    (hcap : s'.sendBuffer.capacity = s.sendBuffer.capacity)
    (htail : s'.sendBuffer.tail = s.sendBuffer.tail) (hmore : s.accepted <+: s'.accepted) :
    Leading s' consumed n buffers := by
  obtain ⟨j, hj, hboundary⟩ := h.boundary
  obtain ⟨more, hmore⟩ := hmore
  refine ⟨by rw [h.cells, hcap, htail], j, ?_, ?_⟩
  · rw [← hmore, List.length_append]
    omega
  · rw [← hmore, List.take_append_of_le_length hj]
    exact hboundary

/-- The send side with `consumed` bytes removed from the ring, of which the send
under way has read the `n` oldest. -/
structure Sending (w : World) (consumed n : Nat) : Prop where
  size : consumed + w.shared.sendBuffer.size = w.shared.stream.length
  bound : n ≤ w.shared.sendBuffer.size
  drained : consumed + w.weigh Frame.draining = w.shared.transferred.length
  sent : w.shared.transferred <+: w.shared.stream
  cells : ∀ i < w.shared.sendBuffer.size,
    w.shared.sendBuffer.buffer.getD
        ((w.shared.sendBuffer.tail + i) % w.shared.sendBuffer.capacity) default =
      w.shared.stream.getD (consumed + i) default ∨
    0 < w.weigh (Frame.reserves
      ((w.shared.sendBuffer.tail + i) % w.shared.sendBuffer.capacity))
  writers : ∀ f ∈ w.frames, ∀ buffers offsetInSpan data,
    f.unwritten = some (buffers, offsetInSpan, data) →
    ∃ q, n ≤ q ∧ Reserved w.shared consumed q buffers offsetInSpan data
  holders : ∀ f ∈ w.frames, ∀ buffers, f.holds w.shared = some buffers →
    Leading w.shared consumed n buffers
  drains : ∀ f ∈ w.frames, f.draining ≤ n
  posted : ∀ buffers ∈ w.shared.sends, Leading w.shared consumed n buffers

def World.openSends (w : World) : Nat :=
  w.weigh Frame.underWay + w.shared.sends.length

theorem World.draining_eq_zero_of_posted {w : World} (hone : w.openSends ≤ 1)
    (hposted : 0 < w.shared.sends.length) : w.weigh Frame.draining = 0 := by
  refine World.weigh_eq_zero.mpr fun f hf => Frame.draining_eq_zero ?_
  unfold World.openSends at hone
  exact World.weigh_eq_zero.mp (show w.weigh Frame.underWay = 0 by omega) f hf

theorem World.draining_eq_zero_of_holds {w : World} (hone : w.openSends ≤ 1) {tid : Nat}
    {t : Thread} {f : Frame} {rest : List Frame} {spans : List Span}
    (hthread : w.threads[tid]? = some t) (hframes : t.frames = f :: rest)
    (hholds : f.holds w.shared = some spans) : w.weigh Frame.draining = 0 := by
  have hle : ∀ g : Frame, min 1 g.draining ≤ g.underWay := by
    intro g
    by_cases hg : g.underWay = 0
    · simp [Frame.draining_eq_zero hg]
    · omega
  have hnone : f.draining = 0 := by
    unfold Frame.holds at hholds
    split at hholds <;> first | rfl | cases hholds
  have hlt := World.weigh_lt_weigh hle hthread hframes
    (by rw [hnone, Frame.underWay_of_holds hholds]; decide)
  unfold World.openSends at hone
  apply World.weigh_eq_zero.mpr
  intro g hg
  have hzero := World.weigh_eq_zero.mp
    (show w.weigh (fun g => min 1 g.draining) = 0 by omega) g hg
  omega

namespace Sending

variable {ok : World → Label → Prop} {w : World} {consumed n : Nat}

theorem initial {receiveBuffer sendBuffer : CircleBufferQueue} {socket : SocketState}
    (hempty : sendBuffer.size = 0) :
    Sending ⟨Shared.initial receiveBuffer sendBuffer socket, []⟩ 0 0 where
  size := by simp [Shared.initial, Shared.stream, encodings, hempty]
  bound := Nat.zero_le _
  drained := rfl
  sent := List.nil_prefix
  cells := by
    intro i hi
    simp only [Shared.initial, hempty] at hi
    omega
  writers := by simp [World.frames]
  holders := by simp [World.frames]
  drains := by simp [World.frames]
  posted := by simp [Shared.initial]

/-- The send side depends on the ring, the stream and the posted buffers, and on
the frames with a part in it. -/
theorem congr {w' : World} (h : Sending w consumed n)
    (hring : w'.shared.sendBuffer = w.shared.sendBuffer)
    (haccepted : w'.shared.accepted = w.shared.accepted)
    (htransferred : w'.shared.transferred = w.shared.transferred)
    (hsends : ∀ buffers ∈ w'.shared.sends, buffers ∈ w.shared.sends ∨
      ∃ f ∈ w.frames, f.holds w.shared = some buffers)
    (hdraining : w'.weigh Frame.draining = w.weigh Frame.draining)
    (hreserves : ∀ c, w'.weigh (Frame.reserves c) = w.weigh (Frame.reserves c))
    (hframes : ∀ g ∈ w'.frames, g.Inert w'.shared ∨ ∃ f ∈ w.frames, g.unwritten = f.unwritten ∧
      (g.holds w'.shared = none ∨ g.holds w'.shared = f.holds w.shared) ∧
      g.draining = f.draining) :
    Sending w' consumed n := by
  have hstream : w'.shared.stream = w.shared.stream := by
    rw [Shared.stream, haccepted, Shared.stream]
  have hleading : ∀ buffers, Leading w.shared consumed n buffers →
      Leading w'.shared consumed n buffers := fun buffers hbuffers =>
    hbuffers.mono (by rw [hring]) (by rw [hring]) (haccepted ▸ List.prefix_rfl)
  refine ⟨?_, ?_, ?_, ?_, ?_, ?_, ?_, ?_, ?_⟩
  · rw [hring, hstream]
    exact h.size
  · exact hring ▸ h.bound
  · rw [hdraining, htransferred]
    exact h.drained
  · rw [htransferred, hstream]
    exact h.sent
  · intro i hi
    rw [hring] at hi ⊢
    rw [hstream, hreserves]
    exact h.cells i hi
  · intro g hg buffers offsetInSpan data hunwritten
    rcases hframes g hg with hinert | ⟨f, hf, hsame, -⟩
    · simp [hinert.unwritten] at hunwritten
    · obtain ⟨q, hq, hreserved⟩ :=
        h.writers f hf buffers offsetInSpan data (hsame ▸ hunwritten)
      exact ⟨q, hq, hreserved.mono (by rw [hring]) (by rw [hring]) (by rw [hring])
        h.size.le (hstream ▸ List.prefix_rfl)⟩
  · intro g hg buffers hholds
    rcases hframes g hg with hinert | ⟨f, hf, -, hsame, -⟩
    · simp [hinert.holds] at hholds
    · rcases hsame with hnone | hsame
      · simp [hnone] at hholds
      · exact hleading buffers (h.holders f hf buffers (hsame ▸ hholds))
  · intro g hg
    rcases hframes g hg with hinert | ⟨f, hf, -, -, hsame⟩
    · rw [hinert.draining]
      exact Nat.zero_le _
    · exact hsame ▸ h.drains f hf
  · intro buffers hbuffers
    rcases hsends buffers hbuffers with hold | ⟨f, hf, hholds⟩
    · exact hleading buffers (h.posted buffers hold)
    · exact hleading buffers (h.holders f hf buffers hholds)

theorem exec_untouched (h : Sending w consumed n) {tid : Nat} {choice : Choice} {t : Thread}
    {f : Frame} {rest : List Frame} (hthread : w.threads[tid]? = some t)
    (hframes : t.frames = f :: rest) (hf : f.touches = false) :
    Sending ⟨(f.exec choice w.shared).1,
      w.threads.set tid ⟨t.guard, (f.exec choice w.shared).2 ++ rest⟩⟩ consumed n := by
  obtain ⟨hring, haccepted, htransferred, hsends, hoverlapped, hinert, hfs⟩ :=
    (f.steps_exec choice w.shared).untouched hf
  refine h.congr hring haccepted htransferred ?_ ?_ ?_ ?_
  · intro buffers hbuffers
    exact .inl (hsends ▸ hbuffers)
  · apply World.weigh_exec_of_eq hthread hframes
    rw [hinert.draining]
    exact tally_eq_zero.mpr fun g hg => (hfs g hg).draining
  · intro c
    apply World.weigh_exec_of_eq hthread hframes
    rw [hinert.reserves]
    exact tally_eq_zero.mpr fun g hg => (hfs g hg).reserves c
  · intro g hg
    rcases World.mem_frames_exec hthread hframes hg with hnew | hold
    · exact .inl (hfs g hnew)
    · exact .inr ⟨g, hold, rfl, .inr (g.holds_congr hoverlapped), rfl⟩

theorem exec_like (h : Sending w consumed n) {tid : Nat} {t : Thread} {f g : Frame}
    {rest : List Frame} {s' : Shared} (hthread : w.threads[tid]? = some t)
    (hframes : t.frames = f :: rest) (hring : s'.sendBuffer = w.shared.sendBuffer)
    (haccepted : s'.accepted = w.shared.accepted)
    (htransferred : s'.transferred = w.shared.transferred)
    (hsends : s'.sends = w.shared.sends) (hoverlapped : s'.sendOverlapped = w.shared.sendOverlapped)
    (hunwritten : g.unwritten = f.unwritten)
    (hholds : g.holds s' = none ∨ g.holds s' = f.holds w.shared)
    (hdraining : g.draining = f.draining) :
    Sending ⟨s', w.threads.set tid ⟨t.guard, [g] ++ rest⟩⟩ consumed n := by
  refine h.congr hring haccepted htransferred ?_ ?_ ?_ ?_
  · intro buffers hbuffers
    exact .inl (hsends ▸ hbuffers)
  · exact World.weigh_replaced hthread hframes s' t.guard hdraining
  · intro c
    apply World.weigh_replaced hthread hframes
    have hcells : g.reserved = f.reserved := by simp only [Frame.reserved, hunwritten]
    simp only [Frame.reserves, hcells]
  · intro u hu
    rcases World.mem_frames_exec hthread hframes hu with hnew | hold
    · obtain rfl := List.mem_singleton.mp hnew
      exact .inr ⟨f, World.mem_frames hthread hframes, hunwritten, hholds, hdraining⟩
    · exact .inr ⟨u, hold, rfl, .inr (u.holds_congr hoverlapped), rfl⟩

/-- A sender reserves room for its message behind the content. -/
theorem allocated (h : Sending w consumed n) {tid : Nat} {t : Thread} {m : Message}
    {rest : List Frame} {buffers : List Span} {s' : Shared} (hthread : w.threads[tid]? = some t)
    (hframes : t.frames = .sendMessage m .allocateWrite :: rest)
    (hroom : w.shared.sendBuffer.allocateWrite m.totalSize = some (buffers, s'.sendBuffer))
    (haccepted : s'.accepted = w.shared.accepted ++ [m])
    (htransferred : s'.transferred = w.shared.transferred) (hsends : s'.sends = w.shared.sends)
    (hoverlapped : s'.sendOverlapped = w.shared.sendOverlapped) :
    Sending ⟨s', w.threads.set tid ⟨t.guard, [.sendMessage m (.writeSize buffers)] ++ rest⟩⟩
      consumed n := by
  obtain ⟨-, hcells, hbuffer, htail, hsize⟩ := RingBuffer.allocateWrite_eq_some hroom
  have hcap : s'.sendBuffer.capacity = w.shared.sendBuffer.capacity := by
    simp only [RingBuffer.capacity, hbuffer]
  have hlen := h.size
  have hstream : s'.stream = w.shared.stream ++ m.encode := by
    rw [Shared.stream, haccepted, encodings_append, encodings_singleton, Shared.stream]
  have hleading : ∀ spans, Leading w.shared consumed n spans → Leading s' consumed n spans :=
    fun spans hspans => hspans.mono hcap htail (haccepted ▸ List.prefix_append _ _)
  refine ⟨?_, ?_, ?_, ?_, ?_, ?_, ?_, ?_, ?_⟩
  · change consumed + s'.sendBuffer.size = s'.stream.length
    rw [hstream, List.length_append, Message.length_encode, hsize]
    omega
  · have hbound := h.bound
    change n ≤ s'.sendBuffer.size
    omega
  · rw [World.weigh_exec_of_eq hthread hframes s' t.guard rfl]
    exact htransferred ▸ h.drained
  · change s'.transferred <+: s'.stream
    rw [htransferred, hstream]
    exact h.sent.trans (List.prefix_append _ _)
  · intro i hi
    change i < s'.sendBuffer.size at hi
    have hweigh := World.weigh_exec (Frame.reserves
      ((w.shared.sendBuffer.tail + i) % w.shared.sendBuffer.capacity)) hthread hframes
      s' t.guard [.sendMessage m (.writeSize buffers)]
    simp only [hstream, hbuffer, htail, hcap]
    by_cases hold : i < w.shared.sendBuffer.size
    · rcases h.cells i hold with hvalue | hreserved
      · left
        rw [hvalue, List.getD_append _ _ _ _ (by omega)]
      · right
        have hnone : Frame.reserves ((w.shared.sendBuffer.tail + i) %
            w.shared.sendBuffer.capacity) (.sendMessage m .allocateWrite) = 0 := rfl
        omega
    · right
      have hmem : (w.shared.sendBuffer.tail + i) % w.shared.sendBuffer.capacity ∈
          Frame.reserved (.sendMessage m (.writeSize buffers)) := by
        change _ ∈ cellsFrom buffers 0
        rw [cellsFrom_zero, hcells]
        refine mem_window.mpr ⟨i - w.shared.sendBuffer.size, by omega, ?_⟩
        congr 1
        omega
      have hone : Frame.reserves ((w.shared.sendBuffer.tail + i) %
          w.shared.sendBuffer.capacity) (.sendMessage m (.writeSize buffers)) = 1 := if_pos hmem
      have hnone : Frame.reserves ((w.shared.sendBuffer.tail + i) %
          w.shared.sendBuffer.capacity) (.sendMessage m .allocateWrite) = 0 := rfl
      rw [tally_cons, tally_nil] at hweigh
      omega
  · intro g hg spans off data hunwritten
    rcases World.mem_frames_exec hthread hframes hg with hnewFrame | hold
    · obtain rfl := List.mem_singleton.mp hnewFrame
      cases hunwritten
      refine ⟨w.shared.sendBuffer.size, h.bound, ?_, cursorOk_zero _, ?_, ?_⟩
      · change w.shared.sendBuffer.size + m.encode.length ≤ s'.sendBuffer.size
        rw [Message.length_encode, hsize]
      · change cellsFrom buffers 0 = window s'.sendBuffer.capacity
          (s'.sendBuffer.tail + w.shared.sendBuffer.size) m.encode.length
        rw [cellsFrom_zero, hcells, hcap, htail, Message.length_encode]
      · change m.encode = (s'.stream.drop (consumed + w.shared.sendBuffer.size)).take
          m.encode.length
        rw [hstream, hlen, List.drop_left' rfl, List.take_length]
    · obtain ⟨k, hk, hreserved⟩ := h.writers g hold spans off data hunwritten
      exact ⟨k, hk, hreserved.mono hcap htail (hsize ▸ Nat.le_add_right _ _) hlen.le
        (hstream ▸ List.prefix_append _ _)⟩
  · intro g hg spans hholds
    rcases World.mem_frames_exec hthread hframes hg with hnewFrame | hold
    · obtain rfl := List.mem_singleton.mp hnewFrame
      cases hholds
    · exact hleading spans (h.holders g hold spans (g.holds_congr hoverlapped ▸ hholds))
  · intro g hg
    rcases World.mem_frames_exec hthread hframes hg with hnewFrame | hold
    · obtain rfl := List.mem_singleton.mp hnewFrame
      exact Nat.zero_le _
    · exact h.drains g hold
  · intro spans hspans
    exact hleading spans (h.posted spans (hsends ▸ hspans))

/-- A sender writes its next `k` bytes into its next cells. -/
theorem wrote (h : Sending w consumed n) {tid : Nat} {t : Thread} {f g : Frame}
    {rest : List Frame} {s' : Shared} {buffers : List Span} {off k : Nat} {data : List Byte}
    (hthread : w.threads[tid]? = some t) (hframes : t.frames = f :: rest)
    (hunwritten : f.unwritten = some (buffers, off, data)) (hk : k ≤ data.length)
    (hring : s'.sendBuffer = w.shared.sendBuffer.fill (cellsFrom buffers off) (data.take k))
    (haccepted : s'.accepted = w.shared.accepted)
    (htransferred : s'.transferred = w.shared.transferred) (hsends : s'.sends = w.shared.sends)
    (hoverlapped : s'.sendOverlapped = w.shared.sendOverlapped)
    (hfdraining : f.draining = 0) (hgdraining : g.draining = 0) (hgholds : g.holds s' = none)
    (hg : (data.drop k = [] ∧ g.unwritten = none) ∨ ∃ buffers' off',
      g.unwritten = some (buffers', off', data.drop k) ∧ CursorOk buffers' off' ∧
        cellsFrom buffers' off' = (cellsFrom buffers off).drop k) :
    Sending ⟨s', w.threads.set tid ⟨t.guard, [g] ++ rest⟩⟩ consumed n := by
  obtain ⟨q, hq, hwriter⟩ :=
    h.writers f (World.mem_frames hthread hframes) buffers off data hunwritten
  have hcells := hwriter.cells
  have hfits := hwriter.fits
  have hsize : s'.sendBuffer.size = w.shared.sendBuffer.size := by rw [hring]; rfl
  have htail : s'.sendBuffer.tail = w.shared.sendBuffer.tail := by rw [hring]; rfl
  have hcap : s'.sendBuffer.capacity = w.shared.sendBuffer.capacity := by
    rw [hring, RingBuffer.fill_capacity]
  have hstream : s'.stream = w.shared.stream := by rw [Shared.stream, haccepted, Shared.stream]
  have htake : (data.take k).length = k := by rw [List.length_take]; omega
  have hsizeCap := w.shared.sendBuffer.size_le_capacity
  have hbuffer : s'.sendBuffer.buffer = scatter w.shared.sendBuffer.buffer
      (window w.shared.sendBuffer.capacity (w.shared.sendBuffer.tail + q) (data.take k).length)
      (data.take k) := by
    rw [hring, ← RingBuffer.fill_take, htake, hcells, take_window _ _ hk, RingBuffer.fill_buffer]
  have hreserved : g.reserved = (cellsFrom buffers off).drop k := by
    rcases hg with ⟨hdone, hnone⟩ | ⟨buffers', off', hsome, -, hrest⟩
    · have hlen : data.length ≤ k := List.drop_eq_nil_iff.mp hdone
      rw [Frame.reserved, hnone, hcells, List.drop_eq_nil_of_le (by rw [length_window]; exact hlen)]
    · rw [Frame.reserved, hsome]
      exact hrest
  have hleading : ∀ spans, Leading w.shared consumed n spans → Leading s' consumed n spans :=
    fun spans hspans => hspans.mono hcap htail (haccepted ▸ List.prefix_rfl)
  refine ⟨?_, ?_, ?_, ?_, ?_, ?_, ?_, ?_, ?_⟩
  · change consumed + s'.sendBuffer.size = s'.stream.length
    rw [hsize, hstream]
    exact h.size
  · exact hsize ▸ h.bound
  · rw [World.weigh_replaced hthread hframes s' t.guard (hgdraining.trans hfdraining.symm)]
    exact htransferred ▸ h.drained
  · change s'.transferred <+: s'.stream
    rw [htransferred, hstream]
    exact h.sent
  · intro i hi
    change i < s'.sendBuffer.size at hi
    rw [hsize] at hi
    simp only [hstream, hbuffer, htail, hcap]
    have hvalue : (scatter w.shared.sendBuffer.buffer (window w.shared.sendBuffer.capacity
        (w.shared.sendBuffer.tail + q) (data.take k).length) (data.take k)).getD
          ((w.shared.sendBuffer.tail + i) % w.shared.sendBuffer.capacity) default =
        if q ≤ i ∧ i < q + (data.take k).length then (data.take k).getD (i - q) default
        else w.shared.sendBuffer.buffer.getD
          ((w.shared.sendBuffer.tail + i) % w.shared.sendBuffer.capacity) default :=
      getD_scatter_window w.shared.sendBuffer.buffer w.shared.sendBuffer.tail (data.take k)
        (show _ ≤ w.shared.sendBuffer.capacity by omega)
        (show i < w.shared.sendBuffer.capacity by omega)
    rw [hvalue]
    by_cases hin : q ≤ i ∧ i < q + (data.take k).length
    · -- the cell has just been written
      left
      rw [if_pos hin, List.getD_eq_getElem?_getD, List.getElem?_take_of_lt (by omega),
        hwriter.getElem?_eq hin.1 (by omega), List.getD_eq_getElem?_getD]
    · rw [if_neg hin]
      apply (h.cells i hi).imp id
      intro hpos
      have hout := not_mem_window w.shared.sendBuffer.tail
        (show q + k ≤ w.shared.sendBuffer.capacity by omega)
        (show i < w.shared.sendBuffer.capacity by omega) (htake ▸ hin)
      have hsame : g.reserves ((w.shared.sendBuffer.tail + i) % w.shared.sendBuffer.capacity) =
          f.reserves ((w.shared.sendBuffer.tail + i) % w.shared.sendBuffer.capacity) := by
        have hf : f.reserved = window w.shared.sendBuffer.capacity
            (w.shared.sendBuffer.tail + q) k ++ (cellsFrom buffers off).drop k := by
          rw [← take_window _ _ hk, ← hcells, List.take_append_drop, Frame.reserved, hunwritten]
        rw [Frame.reserves, hreserved, Frame.reserves, hf]
        simp only [List.mem_append, hout, false_or]
      have hweigh := World.weigh_exec (Frame.reserves
        ((w.shared.sendBuffer.tail + i) % w.shared.sendBuffer.capacity)) hthread hframes
        s' t.guard [g]
      rw [tally_cons, tally_nil, hsame] at hweigh
      exact Nat.lt_of_lt_of_le hpos (by omega)
  · intro u hu spans o d hsome
    rcases World.mem_frames_exec hthread hframes hu with hnew | hold
    · obtain rfl := List.mem_singleton.mp hnew
      rcases hg with ⟨-, hnone⟩ | ⟨buffers', off', hsome', hcursor', hrest⟩
      · simp [hnone] at hsome
      · obtain ⟨rfl, rfl, rfl⟩ : buffers' = spans ∧ off' = o ∧ data.drop k = d := by
          simpa [hsome'] using hsome
        exact ⟨q + k, by omega, (hwriter.advance hk hcursor' hrest).mono hcap htail hsize.ge
          h.size.le (hstream ▸ List.prefix_rfl)⟩
    · obtain ⟨p, hp, hreserved'⟩ := h.writers u hold spans o d hsome
      exact ⟨p, hp, hreserved'.mono hcap htail hsize.ge h.size.le (hstream ▸ List.prefix_rfl)⟩
  · intro u hu spans hholds
    rcases World.mem_frames_exec hthread hframes hu with hnew | hold
    · obtain rfl := List.mem_singleton.mp hnew
      simp [hgholds] at hholds
    · exact hleading spans (h.holders u hold spans (u.holds_congr hoverlapped ▸ hholds))
  · intro u hu
    rcases World.mem_frames_exec hthread hframes hu with hnew | hold
    · obtain rfl := List.mem_singleton.mp hnew
      rw [hgdraining]
      exact Nat.zero_le _
    · exact h.drains u hold
  · intro spans hspans
    exact hleading spans (h.posted spans (hsends ▸ hspans))

theorem read (h : Sending w consumed n) {tid : Nat} {t : Thread} {rest : List Frame}
    {f : Frame} (hthread : w.threads[tid]? = some t) (hframes : t.frames = f :: rest)
    (hf : f.Inert w.shared) (hopen : w.openSends = 0) (hwritten : w.weigh Frame.writing = 0)
    (hnarrow : ∀ span ∈ w.shared.sendBuffer.getReadBuffers.2, span.length < 2 ^ 32) :
    Sending ⟨w.shared, w.threads.set tid ⟨t.guard, [.tryPostSendFromQueue
        (.prepare w.shared.sendBuffer.size w.shared.sendBuffer.getReadBuffers.2)] ++ rest⟩⟩
      consumed w.shared.sendBuffer.size := by
  have hunderWay := World.weigh_eq_zero.mp (Nat.eq_zero_of_add_eq_zero_right hopen)
  have hsends : w.shared.sends = [] :=
    List.length_eq_zero_iff.mp (Nat.eq_zero_of_add_eq_zero_left hopen)
  have hnone := World.weigh_eq_zero.mp hwritten
  have hblocks : w.shared.sendBuffer.getReadBuffers.2.map wsaBuf =
      w.shared.sendBuffer.getReadBuffers.2 := map_wsaBuf hnarrow
  refine ⟨h.size, le_rfl, ?_, h.sent, ?_, ?_, ?_, ?_, ?_⟩
  · rw [World.weigh_replaced hthread hframes w.shared t.guard hf.draining.symm]
    exact h.drained
  · intro i hi
    apply (h.cells i hi).imp id
    intro hpos
    change 0 < World.weigh _ (Frame.reserves
      ((w.shared.sendBuffer.tail + i) % w.shared.sendBuffer.capacity))
    have hweigh := World.weigh_exec (Frame.reserves
      ((w.shared.sendBuffer.tail + i) % w.shared.sendBuffer.capacity)) hthread hframes w.shared
      t.guard [.tryPostSendFromQueue
        (.prepare w.shared.sendBuffer.size w.shared.sendBuffer.getReadBuffers.2)]
    rw [hf.reserves] at hweigh
    exact Nat.lt_of_lt_of_le hpos (by omega)
  · intro g hg spans off data hunwritten
    rcases World.mem_frames_exec hthread hframes hg with hnew | hold
    · obtain rfl := List.mem_singleton.mp hnew
      cases hunwritten
    · have hzero := hnone g hold
      simp [Frame.writing, hunwritten] at hzero
  · intro g hg spans hholds
    rcases World.mem_frames_exec hthread hframes hg with hnew | hold
    · obtain rfl := List.mem_singleton.mp hnew
      simp only [Frame.holds, hblocks, Option.some.injEq] at hholds
      subst hholds
      refine ⟨RingBuffer.spanCells_getReadBuffers, w.shared.accepted.length, le_rfl, ?_⟩
      rw [List.take_length]
      exact h.size
    · have hzero := hunderWay g hold
      rw [Frame.underWay_of_holds hholds] at hzero
      cases hzero
  · intro g hg
    rcases World.mem_frames_exec hthread hframes hg with hnew | hold
    · obtain rfl := List.mem_singleton.mp hnew
      exact Nat.zero_le _
    · rw [Frame.draining_eq_zero (hunderWay g hold)]
      exact Nat.zero_le _
  · intro spans hspans
    change spans ∈ w.shared.sends at hspans
    simp [hsends] at hspans

/-- A poster stores its buffers in the shared record of the send. -/
theorem prepared (h : Sending w consumed n) {tid : Nat} {t : Thread} {rest : List Frame}
    {f g : Frame} {s' : Shared} {buffers : List Span} (hthread : w.threads[tid]? = some t)
    (hframes : t.frames = f :: rest) (hf : f.holds w.shared = some buffers)
    (hunwritten : f.unwritten = none) (hdraining : f.draining = 0)
    (hring : s'.sendBuffer = w.shared.sendBuffer) (haccepted : s'.accepted = w.shared.accepted)
    (htransferred : s'.transferred = w.shared.transferred) (hsends : s'.sends = w.shared.sends)
    (hoverlapped : s'.sendOverlapped.wsaBufs = buffers) (hgunwritten : g.unwritten = none)
    (hgdraining : g.draining = 0) (hgholds : ∀ spans, g.holds s' = some spans → spans = buffers) :
    Sending ⟨s', w.threads.set tid ⟨t.guard, [g] ++ rest⟩⟩ consumed n := by
  have hstream : s'.stream = w.shared.stream := by rw [Shared.stream, haccepted, Shared.stream]
  have hleading : ∀ spans, Leading w.shared consumed n spans → Leading s' consumed n spans :=
    fun spans hspans => hspans.mono (by rw [hring]) (by rw [hring]) (haccepted ▸ List.prefix_rfl)
  have hbuffers : Leading s' consumed n buffers :=
    hleading buffers (h.holders f (World.mem_frames hthread hframes) buffers hf)
  refine ⟨?_, ?_, ?_, ?_, ?_, ?_, ?_, ?_, ?_⟩
  · change consumed + s'.sendBuffer.size = s'.stream.length
    rw [hring, hstream]
    exact h.size
  · exact hring ▸ h.bound
  · rw [World.weigh_replaced hthread hframes s' t.guard (hgdraining.trans hdraining.symm)]
    exact htransferred ▸ h.drained
  · change s'.transferred <+: s'.stream
    rw [htransferred, hstream]
    exact h.sent
  · intro i hi
    change i < s'.sendBuffer.size at hi
    rw [hring] at hi
    simp only [hring, hstream]
    apply (h.cells i hi).imp id
    intro hpos
    have hweigh := World.weigh_exec (Frame.reserves
      ((w.shared.sendBuffer.tail + i) % w.shared.sendBuffer.capacity)) hthread hframes s'
      t.guard [g]
    have hzero :
        f.reserves ((w.shared.sendBuffer.tail + i) % w.shared.sendBuffer.capacity) = 0 := by
      simp [Frame.reserves, Frame.reserved, hunwritten]
    exact Nat.lt_of_lt_of_le hpos (by omega)
  · intro u hu spans off data hsome
    rcases World.mem_frames_exec hthread hframes hu with hnew | hold
    · obtain rfl := List.mem_singleton.mp hnew
      simp [hgunwritten] at hsome
    · obtain ⟨q, hq, hreserved⟩ := h.writers u hold spans off data hsome
      exact ⟨q, hq, hreserved.mono (by rw [hring]) (by rw [hring]) (by rw [hring])
        h.size.le (hstream ▸ List.prefix_rfl)⟩
  · intro u hu spans hholds
    rcases World.mem_frames_exec hthread hframes hu with hnew | hold
    · obtain rfl := List.mem_singleton.mp hnew
      rw [hgholds spans hholds]
      exact hbuffers
    · -- an older poster holds its own blocks, or the record that was just written
      unfold Frame.holds at hholds
      split at hholds
      · exact hleading spans (h.holders _ hold spans hholds)
      · cases hholds
        exact hoverlapped ▸ hbuffers
      · cases hholds
        exact hoverlapped ▸ hbuffers
      · cases hholds
  · intro u hu
    rcases World.mem_frames_exec hthread hframes hu with hnew | hold
    · obtain rfl := List.mem_singleton.mp hnew
      rw [hgdraining]
      exact Nat.zero_le _
    · exact h.drains u hold
  · intro spans hspans
    exact hleading spans (h.posted spans (hsends ▸ hspans))

theorem passed (h : Sending w consumed n) {tid : Nat} {t : Thread} {rest : List Frame}
    (hthread : w.threads[tid]? = some t)
    (hframes : t.frames = .tryPostSendFromQueue .wsaSend :: rest) :
    Sending ⟨{ w.shared with sends := w.shared.sends ++ [w.shared.sendOverlapped.wsaBufs] },
      w.threads.set tid ⟨t.guard, [] ++ rest⟩⟩ consumed n := by
  refine h.congr rfl rfl rfl ?_ ?_ ?_ ?_
  · intro buffers hbuffers
    rcases List.mem_append.mp hbuffers with hold | hnew
    · exact .inl hold
    · obtain rfl := List.mem_singleton.mp hnew
      exact .inr ⟨_, World.mem_frames hthread hframes, rfl⟩
  · exact World.weigh_exec Frame.draining hthread hframes _ t.guard []
  · intro c
    exact World.weigh_exec (Frame.reserves c) hthread hframes _ t.guard []
  · intro g hg
    rcases World.mem_frames_exec hthread hframes hg with hnew | hold
    · cases hnew
    · exact .inr ⟨g, hold, rfl, .inr rfl, rfl⟩

/-- The bytes of a completed send are removed: nothing else is under way. -/
theorem consume (h : Sending w consumed n) {tid : Nat} {t : Thread} {rest : List Frame}
    {bytes : Nat} {s' : Shared} (hthread : w.threads[tid]? = some t)
    (hframes : t.frames = .handleSendCompletion (.consume bytes) :: rest) (hpos : bytes ≠ 0)
    (hone : w.openSends ≤ 1)
    (hring : w.shared.sendBuffer.consume bytes = some s'.sendBuffer)
    (haccepted : s'.accepted = w.shared.accepted)
    (htransferred : s'.transferred = w.shared.transferred) (hsends : s'.sends = w.shared.sends) :
    Sending ⟨s', w.threads.set tid
      ⟨t.guard, [.handleSendCompletion (.addTxBytes bytes)] ++ rest⟩⟩ (consumed + bytes) 0 := by
  obtain ⟨hle, hbuffer, htail, hsize⟩ := RingBuffer.consume_eq_some hring
  have hcap : s'.sendBuffer.capacity = w.shared.sendBuffer.capacity := by
    simp only [RingBuffer.capacity, hbuffer]
  have hstream : s'.stream = w.shared.stream := by rw [Shared.stream, haccepted, Shared.stream]
  have hlen := h.size
  have hn : bytes ≤ n := h.drains _ (World.mem_frames hthread hframes)
  -- the send under way is this one
  have hself : Frame.underWay (.handleSendCompletion (.consume bytes)) = 1 := if_neg hpos
  have hweigh := World.weigh_exec Frame.underWay hthread hframes s' t.guard
    [.handleSendCompletion (.addTxBytes bytes)]
  have hself' : tally Frame.underWay [.handleSendCompletion (.addTxBytes bytes)] = 0 := rfl
  unfold World.openSends at hone
  have hnone := World.weigh_eq_zero.mp (show World.weigh ⟨s', w.threads.set tid
    ⟨t.guard, [.handleSendCompletion (.addTxBytes bytes)] ++ rest⟩⟩ Frame.underWay = 0 by omega)
  have hempty : w.shared.sends = [] := by
    apply List.length_eq_zero_iff.mp
    have hpart : Frame.underWay (.handleSendCompletion (.consume bytes)) ≤
      w.weigh Frame.underWay := World.weight_le_weigh hthread hframes
    omega
  refine ⟨?_, Nat.zero_le _, ?_, ?_, ?_, ?_, ?_, ?_, ?_⟩
  · change consumed + bytes + s'.sendBuffer.size = s'.stream.length
    rw [hstream]
    omega
  · have hdraining := World.weigh_exec Frame.draining hthread hframes s' t.guard
      [.handleSendCompletion (.addTxBytes bytes)]
    have hbefore : Frame.draining (.handleSendCompletion (.consume bytes)) = bytes := rfl
    have hafter : tally Frame.draining [.handleSendCompletion (.addTxBytes bytes)] = 0 := rfl
    have hdrained := h.drained
    change consumed + bytes + World.weigh _ Frame.draining = s'.transferred.length
    rw [htransferred]
    omega
  · change s'.transferred <+: s'.stream
    rw [htransferred, hstream]
    exact h.sent
  · intro i hi
    change i < s'.sendBuffer.size at hi
    have hcell : (s'.sendBuffer.tail + i) % s'.sendBuffer.capacity =
        (w.shared.sendBuffer.tail + (bytes + i)) % w.shared.sendBuffer.capacity := by
      rw [hcap, htail, Nat.mod_add_mod, Nat.add_assoc]
    have hweigh := World.weigh_exec (Frame.reserves
      ((w.shared.sendBuffer.tail + (bytes + i)) % w.shared.sendBuffer.capacity)) hthread hframes s'
      t.guard [.handleSendCompletion (.addTxBytes bytes)]
    simp only [hcell, hbuffer, hstream]
    rw [Nat.add_assoc]
    exact (h.cells (bytes + i) (by omega)).imp id fun hpos => Nat.lt_of_lt_of_le hpos
      (Nat.le_of_eq hweigh.symm)
  · intro g hg spans off data hunwritten
    rcases World.mem_frames_exec hthread hframes hg with hnew | hold
    · obtain rfl := List.mem_singleton.mp hnew
      cases hunwritten
    · obtain ⟨q, hq, hfits, hcursor, hcells, hdata⟩ := h.writers g hold spans off data hunwritten
      refine ⟨q - bytes, Nat.zero_le _, ?_, hcursor, ?_, ?_⟩
      · change q - bytes + data.length ≤ s'.sendBuffer.size
        omega
      · change cellsFrom spans off = window s'.sendBuffer.capacity
          (s'.sendBuffer.tail + (q - bytes)) data.length
        rw [hcells, hcap, htail, ← window_mod _ (_ % _ + _), Nat.mod_add_mod, window_mod]
        congr 1
        omega
      · change data = (s'.stream.drop (consumed + bytes + (q - bytes))).take data.length
        rw [hstream, show consumed + bytes + (q - bytes) = consumed + q by omega]
        exact hdata
  · intro g hg spans hholds
    have hzero := hnone g hg
    rw [Frame.underWay_of_holds hholds] at hzero
    cases hzero
  · intro g hg
    exact Nat.le_of_eq (Frame.draining_eq_zero (hnone g hg))
  · intro spans hspans
    change spans ∈ s'.sends at hspans
    simp [hsends, hempty] at hspans

theorem not_reserved (h : Sending w consumed n) {buffers : List Span}
    (hbuffers : Leading w.shared consumed n buffers) :
    ∀ c ∈ spanCells buffers, ∀ f ∈ w.frames, c ∉ f.reserved := by
  intro c hc f hf hreserved
  rw [hbuffers.cells] at hc
  obtain ⟨i, hi, rfl⟩ := mem_window.mp hc
  have hbound := h.bound
  have hsizeCap := w.shared.sendBuffer.size_le_capacity
  cases hunwritten : f.unwritten with
  | none => simp [Frame.reserved, hunwritten] at hreserved
  | some reservation =>
    obtain ⟨spans, off, data⟩ := reservation
    obtain ⟨q, hq, hfits, -, hcells, -⟩ := h.writers f hf spans off data hunwritten
    rw [Frame.reserved, hunwritten] at hreserved
    simp only [hcells] at hreserved
    exact not_mem_window w.shared.sendBuffer.tail (by omega) (by omega) (by omega) hreserved

theorem read_leading (h : Sending w consumed n) {buffers : List Span}
    (hbuffers : Leading w.shared consumed n buffers) :
    w.shared.sendBuffer.read (spanCells buffers) = (w.shared.stream.drop consumed).take n := by
  have hsize := h.size
  have hbound := h.bound
  have hsizeCap := w.shared.sendBuffer.size_le_capacity
  unfold RingBuffer.read
  rw [hbuffers.cells]
  apply gather_window_eq (by omega)
  intro i hi
  apply (h.cells i (by omega)).resolve_right
  intro hpos
  have hzero : w.weigh (Frame.reserves
      ((w.shared.sendBuffer.tail + i) % w.shared.sendBuffer.capacity)) = 0 := by
    refine World.weigh_eq_zero.mpr fun f hf => if_neg (h.not_reserved hbuffers _ ?_ f hf)
    rw [hbuffers.cells]
    exact mem_window.mpr ⟨i, hi, rfl⟩
  omega

theorem consumed_eq (h : Sending w consumed n) (hdraining : w.weigh Frame.draining = 0) :
    consumed = w.shared.transferred.length := by
  have hdrained := h.drained
  omega

theorem read_messages (h : Sending w consumed n) {buffers : List Span}
    (hbuffers : Leading w.shared consumed n buffers) :
    ∃ j, consumed + n = (encodings (w.shared.accepted.take j)).length ∧
      w.shared.sendBuffer.read (spanCells buffers) =
        (encodings (w.shared.accepted.take j)).drop consumed := by
  obtain ⟨j, -, hboundary⟩ := hbuffers.boundary
  refine ⟨j, hboundary, ?_⟩
  have hstream : w.shared.stream =
      encodings (w.shared.accepted.take j) ++ encodings (w.shared.accepted.drop j) := by
    rw [← encodings_append, List.take_append_drop, Shared.stream]
  have hlen : n = ((encodings (w.shared.accepted.take j)).drop consumed).length := by
    rw [List.length_drop]
    omega
  rw [h.read_leading hbuffers, hstream, List.drop_append_of_le_length (by omega),
    List.take_append_of_le_length hlen.le, hlen, List.take_length]

theorem completed (h : Sending w consumed n) {index : Nat} {success : Bool} {bytes : Nat}
    {buffers : List Span} {s' : Shared} (hone : w.openSends ≤ 1)
    (hpending : w.shared.sends[index]? = some buffers)
    (hlength : bytes ≤ (spanCells buffers).length)
    (hring : s'.sendBuffer = w.shared.sendBuffer) (haccepted : s'.accepted = w.shared.accepted)
    (htransferred : s'.transferred = w.shared.transferred ++
      if success then (w.shared.sendBuffer.read (spanCells buffers)).take bytes else [])
    (hsends : s'.sends = w.shared.sends.eraseIdx index)
    (hoverlapped : s'.sendOverlapped = w.shared.sendOverlapped) :
    Sending ⟨s', w.threads ++ [⟨some .send, [.handleSendCompletion (.start success bytes)]⟩]⟩
      consumed n := by
  have hmem := List.mem_of_getElem? hpending
  have hleading := h.posted buffers hmem
  have hsize := h.size
  have hbound := h.bound
  have hstream : s'.stream = w.shared.stream := by rw [Shared.stream, haccepted, Shared.stream]
  have hmove : ∀ spans, Leading w.shared consumed n spans → Leading s' consumed n spans :=
    fun spans hspans => hspans.mono (by rw [hring]) (by rw [hring]) (haccepted ▸ List.prefix_rfl)
  have hn : (spanCells buffers).length = n := by rw [hleading.cells, length_window]
  have hnone := World.draining_eq_zero_of_posted hone (List.length_pos_of_mem hmem)
  have hdrained := h.drained
  have hbefore : w.shared.transferred = w.shared.stream.take consumed := by
    rw [List.prefix_iff_eq_take.mp h.sent]
    congr 1
    omega
  have hsent : (w.shared.sendBuffer.read (spanCells buffers)).take bytes =
      (w.shared.stream.drop consumed).take bytes := by
    rw [h.read_leading hleading, List.take_take, Nat.min_eq_left (by omega)]
  have hlen : ((w.shared.stream.drop consumed).take bytes).length = bytes := by
    rw [List.length_take, List.length_drop]
    omega
  refine ⟨?_, hring ▸ h.bound, ?_, ?_, ?_, ?_, ?_, ?_, ?_⟩
  · change consumed + s'.sendBuffer.size = s'.stream.length
    rw [hring, hstream]
    exact h.size
  · rw [World.weigh_spawn]
    change _ = s'.transferred.length
    rw [htransferred]
    cases success with
    | true =>
      simp only [if_true, hsent, List.length_append, hlen, tally_cons, tally_nil, Frame.draining]
      omega
    | false =>
      simp only [Bool.false_eq_true, if_false, List.append_nil, tally_cons, tally_nil,
        Frame.draining]
      omega
  · change s'.transferred <+: s'.stream
    rw [htransferred, hstream]
    cases success with
    | true =>
      rw [if_pos rfl, hsent, hbefore, ← List.take_add]
      exact List.take_prefix _ _
    | false => simpa using h.sent
  · intro i hi
    change i < s'.sendBuffer.size at hi
    rw [hring] at hi
    simp only [hring, hstream]
    apply (h.cells i hi).imp id
    intro hpos
    rw [World.weigh_spawn]
    exact Nat.lt_of_lt_of_le hpos (Nat.le_add_right _ _)
  · intro g hg spans off data hunwritten
    rcases World.mem_frames_spawn hg with hnew | hold
    · obtain rfl := List.mem_singleton.mp hnew
      cases hunwritten
    · obtain ⟨q, hq, hreserved⟩ := h.writers g hold spans off data hunwritten
      exact ⟨q, hq, hreserved.mono (by rw [hring]) (by rw [hring]) (by rw [hring])
        hsize.le (hstream ▸ List.prefix_rfl)⟩
  · intro g hg spans hholds
    rcases World.mem_frames_spawn hg with hnew | hold
    · obtain rfl := List.mem_singleton.mp hnew
      cases hholds
    · exact hmove spans (h.holders g hold spans (g.holds_congr hoverlapped ▸ hholds))
  · intro g hg
    rcases World.mem_frames_spawn hg with hnew | hold
    · obtain rfl := List.mem_singleton.mp hnew
      cases success with
      | true => exact hlength.trans_eq hn
      | false => exact Nat.zero_le _
    · exact h.drains g hold
  · intro spans hspans
    change spans ∈ s'.sends at hspans
    rw [hsends] at hspans
    exact hmove spans (h.posted spans (List.mem_of_mem_eraseIdx hspans))

end Sending

end FastPort.Sessions
