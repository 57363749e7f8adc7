import FastPort.Core.FrameGrammar
import FastPort.Sessions.Receive

/-! `SendMessage` on an idle session: the copies it makes into the blocks it reserved,
and the bytes that the ring holds when it goes on to post. -/
namespace FastPort.Sessions

open FastPort.Commons FastPort.Core FastPort.Foundation.Circular

/-- One `memcpy` (or `SerializeToArray`): the block, the place in it, the bytes. -/
structure Copy where
  span : Span
  offset : Nat
  bytes : List Byte

namespace Copy

def store (q : RingBuffer) (c : Copy) : RingBuffer :=
  q.fill (List.range' (c.span.offset + c.offset) c.bytes.length) c.bytes

structure Inside (spans : List Span) (c : Copy) : Prop where
  mem : c.span ∈ spans
  fits : c.offset + c.bytes.length ≤ c.span.length

theorem Inside.mono {spans more : List Span} {c : Copy} (h : c.Inside spans)
    (hsub : ∀ span ∈ spans, span ∈ more) : c.Inside more where
  mem := hsub _ h.mem
  fits := h.fits

end Copy

def copies : List Span → Nat → List Byte → List Copy
  | [], _, _ => []
  | span :: rest, offsetInSpan, data =>
      if data.length = 0 then []
      else
        let toCopy := min data.length (span.length - offsetInSpan)
        ⟨span, offsetInSpan, data.take toCopy⟩ ::
          if offsetInSpan + toCopy = span.length then copies rest 0 (data.drop toCopy) else []

def bodyCopies (spans : List Span) (offsetInSpan : Nat) (body : List Byte) : List Copy :=
  if body.length > 0 then
    match spans with
    | span :: _ =>
        if span.length - offsetInSpan ≥ body.length then [⟨span, offsetInSpan, body⟩]
        else copies spans offsetInSpan body
    | [] => []
  else []

def messageCopies (q : RingBuffer) (buffers : List Span) (m : Message) : List Copy :=
  let first := writeToBuffers q buffers 0 m.sizeBytes
  let second := writeToBuffers first.1 first.2.1 first.2.2 m.idBytes
  copies buffers 0 m.sizeBytes ++ copies first.2.1 first.2.2 m.idBytes ++
    bodyCopies second.2.1 second.2.2 m.body

theorem foldl_copies (q : RingBuffer) (spans : List Span) (offsetInSpan : Nat)
    (data : List Byte) :
    (copies spans offsetInSpan data).foldl Copy.store q =
      (writeToBuffers q spans offsetInSpan data).1 := by
  induction spans generalizing q offsetInSpan data with
  | nil => rfl
  | cons span rest ih =>
    by_cases hempty : data.length = 0
    · simp [copies, writeToBuffers, hempty]
    · have hlen : (data.take (min data.length (span.length - offsetInSpan))).length =
          min data.length (span.length - offsetInSpan) := by
        rw [List.length_take]
        omega
      simp only [copies, writeToBuffers, hempty, if_false, List.foldl_cons, Copy.store, hlen]
      split
      · exact ih _ _ _
      · rfl

theorem foldl_bodyCopies (q : RingBuffer) (spans : List Span) (offsetInSpan : Nat)
    (body : List Byte) :
    (bodyCopies spans offsetInSpan body).foldl Copy.store q =
      writeBody q spans offsetInSpan body := by
  have hcopies := foldl_copies q spans offsetInSpan body
  unfold bodyCopies writeBody
  split
  · cases spans with
    | nil => exact hcopies
    | cons span rest =>
      dsimp only
      split
      · rfl
      · exact hcopies
  · rfl

theorem foldl_messageCopies (q : RingBuffer) (buffers : List Span) (m : Message) :
    (messageCopies q buffers m).foldl Copy.store q = writeMessage q buffers m := by
  simp only [messageCopies, writeMessage, List.foldl_append, foldl_copies, foldl_bodyCopies]

/-- A copy never leaves its block, as long as the cursor stands within the first one:
what is left of the block bounds it. -/
theorem copies_inside {spans : List Span} {offsetInSpan : Nat}
    (hcursor : CursorOk spans offsetInSpan) (data : List Byte) :
    ∀ c ∈ copies spans offsetInSpan data, c.Inside spans := by
  induction spans generalizing offsetInSpan data with
  | nil =>
    intro c hc
    cases hc
  | cons span rest ih =>
    have hoff : offsetInSpan ≤ span.length := hcursor
    intro c hc
    simp only [copies] at hc
    split at hc
    · cases hc
    · rcases List.mem_cons.mp hc with rfl | hc
      · constructor
        · exact List.mem_cons_self
        · simp only [List.length_take]
          omega
      · split at hc
        · apply (ih (cursorOk_zero rest) _ c hc).mono
          intro block hblock
          exact List.mem_cons_of_mem span hblock
        · cases hc

theorem bodyCopies_inside {spans : List Span} {offsetInSpan : Nat}
    (hcursor : CursorOk spans offsetInSpan) (body : List Byte) :
    ∀ c ∈ bodyCopies spans offsetInSpan body, c.Inside spans := by
  intro c hc
  unfold bodyCopies at hc
  split at hc
  · cases spans with
    | nil => cases hc
    | cons span rest =>
      have hoff : offsetInSpan ≤ span.length := hcursor
      dsimp only at hc
      split at hc
      · obtain rfl := List.mem_singleton.mp hc
        constructor
        · exact List.mem_cons_self
        · simp only
          omega
      · exact copies_inside hcursor body c hc
  · cases hc

theorem writeToBuffers_suffix (q : RingBuffer) (spans : List Span) (offsetInSpan : Nat)
    (data : List Byte) : (writeToBuffers q spans offsetInSpan data).2.1 <:+ spans := by
  induction spans generalizing q offsetInSpan data with
  | nil => exact List.suffix_rfl
  | cons span rest ih =>
    simp only [writeToBuffers]
    split
    · exact List.suffix_rfl
    · split
      · exact (ih _ _ _).trans (List.suffix_cons span rest)
      · exact List.suffix_rfl

theorem messageCopies_inside (q : RingBuffer) {buffers : List Span} {m : Message}
    (h : (spanCells buffers).length = m.totalSize) :
    ∀ c ∈ messageCopies q buffers m, c.Inside buffers := by
  have htotal : (spanCells buffers).length = 2 + 2 + m.body.length := h
  obtain ⟨-, hfirst, hcells⟩ :=
    writeToBuffers_spec q buffers 0 m.sizeBytes (cursorOk_zero _) (by simp [htotal]; omega)
  have hsuffix := writeToBuffers_suffix q buffers 0 m.sizeBytes
  intro c hc
  unfold messageCopies at hc
  dsimp only at hc
  generalize writeToBuffers q buffers 0 m.sizeBytes = first at *
  obtain ⟨-, hsecond, -⟩ := writeToBuffers_spec first.1 first.2.1 first.2.2 m.idBytes hfirst
    (by simp [hcells, htotal]; omega)
  have hsuffix' := writeToBuffers_suffix first.1 first.2.1 first.2.2 m.idBytes
  rcases List.mem_append.mp hc with hc | hbody
  · rcases List.mem_append.mp hc with hsize | hid
    · exact copies_inside (cursorOk_zero _) _ c hsize
    · exact (copies_inside hfirst _ c hid).mono fun span hspan => hsuffix.subset hspan
  · exact (bodyCopies_inside hsecond _ c hbody).mono fun span hspan =>
      hsuffix.subset (hsuffix'.subset hspan)

theorem fields_encode {m : Message} (h : m.totalSize ≤ 0xFFFF) :
    fieldAt m.encode 0 = m.totalSize ∧ fieldAt m.encode 2 = m.packetId.toNat ∧
      m.encode.drop 4 = m.body := by
  obtain ⟨high, low, hsize, hvalue⟩ := memoryBytes_htons (UInt16.ofNat m.totalSize)
  obtain ⟨idHigh, idLow, hid, hidValue⟩ := memoryBytes_htons m.packetId
  have hencode : m.encode = high :: low :: idHigh :: idLow :: m.body := by
    rw [Message.encode, Message.sizeBytes, Message.idBytes, hsize, hid]
    rfl
  rw [hencode]
  refine ⟨?_, ?_, rfl⟩
  · change bigEndian high low = m.totalSize
    rw [← toNat_ntohs_fromMemory, hvalue, UInt16.toNat_ofNat', Nat.mod_eq_of_lt (by omega)]
  · change bigEndian idHigh idLow = m.packetId.toNat
    rw [← toNat_ntohs_fromMemory, hidValue]

/-- `SendMessage` called with no disconnect requested and nobody else at work. When the
message fits, five steps reserve and write it, by copies that stay in the blocks of
`AllocateWrite`, and the next step belongs to `TryPostSendFromQueue`; when it does not,
two steps lead to `RequestDisconnect` and nothing has changed. -/
theorem sendMessage_writes {s : Shared} {m : Message} (hdisc : s.disconnectRequested = false)
    (hsize : m.totalSize ≤ 0xFFFF) :
    (m.totalSize ≤ s.sendBuffer.canWriteSize → ∃ buffers reserved q,
      s.sendBuffer.allocateWrite m.totalSize = some (buffers, reserved) ∧
      (∀ c₁ c₂ c₃ c₄ c₅, alone [c₁, c₂, c₃, c₄, c₅] s [.sendMessage m .checkDisconnect] =
          ({ s with sendBuffer := q, accepted := s.accepted ++ [m] },
            [.tryPostSendFromQueue .checkDisconnect])) ∧
      q.content = s.sendBuffer.content ++ m.encode ∧
      fieldAt m.encode 0 = 4 + m.body.length ∧ fieldAt m.encode 2 = m.packetId.toNat ∧
      m.encode.drop 4 = m.body ∧
      q = (messageCopies reserved buffers m).foldl Copy.store reserved ∧
      (∀ span ∈ buffers, span.offset + span.length ≤ s.sendBuffer.capacity) ∧
      ∀ c ∈ messageCopies reserved buffers m, c.Inside buffers) ∧
    (s.sendBuffer.canWriteSize < m.totalSize → ∀ c₁ c₂,
      alone [c₁, c₂] s [.sendMessage m .checkDisconnect] = (s, [.requestDisconnect .claim])) := by
  constructor
  · intro hfit
    obtain ⟨⟨buffers, reserved⟩, hreserve⟩ := Option.ne_none_iff_exists'.mp
      (mt RingBuffer.allocateWrite_eq_none.mp (Nat.not_lt_of_le hfit))
    obtain ⟨-, hspans, -⟩ := RingBuffer.allocateWrite_eq_some hreserve
    have hlength : (spanCells buffers).length = m.totalSize := by
      rw [hspans, length_window]
    obtain ⟨hsizeField, hidField, hbody⟩ := fields_encode hsize
    refine ⟨buffers, reserved, writeMessage reserved buffers m, hreserve, ?_, ?_, hsizeField,
      hidField, hbody, (foldl_messageCopies reserved buffers m).symm,
      fun span hspan => RingBuffer.reserved_le_capacity hreserve hspan,
      messageCopies_inside reserved hlength⟩
    · intro c₁ c₂ c₃ c₄ c₅
      simp only [alone, Frame.exec, sendMessage, hdisc, hreserve, List.cons_append,
        List.nil_append, Bool.false_eq_true, if_false, writeMessage]
    · rw [writeMessage_spec reserved hlength]
      exact RingBuffer.content_fill_reserved (by rwa [Message.length_encode])
  · intro hfull c₁ c₂
    have hnone := RingBuffer.allocateWrite_eq_none.mpr hfull
    simp [alone, Frame.exec, sendMessage, hdisc, hnone]

/-- An empty ring of eight bytes whose next byte is the last but one. -/
def atEnd : RingBuffer where
  buffer := List.replicate 8 0
  head := 6
  tail := 6
  size := 0
  size_le := by decide
  tail_lt := by decide
  head_eq := by decide

theorem sendMessage_writes_atEnd : ∃ q : RingBuffer, q.content = [0, 6, 1, 2, 10, 20] ∧
    alone (List.replicate 5 ⟨true, 0, none⟩)
      (Shared.initial (CircleBufferQueue.create 0) atEnd .opened)
      [.sendMessage ⟨258, [10, 20]⟩ .checkDisconnect] =
    ({ Shared.initial (CircleBufferQueue.create 0) atEnd .opened with
        sendBuffer := q, accepted := [⟨258, [10, 20]⟩] },
      [.tryPostSendFromQueue .checkDisconnect]) := by
  have hwrites := sendMessage_writes
    (s := Shared.initial (CircleBufferQueue.create 0) atEnd .opened) (m := ⟨258, [10, 20]⟩)
    rfl (by decide)
  obtain ⟨_, _, q, -, hrun, hcontent, -⟩ := hwrites.1 (by decide)
  refine ⟨q, ?_, hrun _ _ _ _ _⟩
  rw [hcontent]
  decide

end FastPort.Sessions
