import FastPort.Core.PacketFramer

/-! How `SendMessage` turns a message into bytes: the encoding, and the copy into
the blocks that `AllocateWrite` returned. -/
namespace FastPort.Sessions

open FastPort.Commons FastPort.Core FastPort.Foundation.Circular

/-- A message as `SendMessage` receives it: the id and the bytes protobuf
serializes it to. -/
structure Message where
  packetId : UInt16
  body : List Byte
deriving DecidableEq, Repr

namespace Message

def totalSize (m : Message) : Nat :=
  getHeaderSize + getPacketIdSize + m.body.length

def sizeBytes (m : Message) : List Byte :=
  memoryBytes (htons (UInt16.ofNat m.totalSize))

def idBytes (m : Message) : List Byte :=
  memoryBytes (htons m.packetId)

def encode (m : Message) : List Byte :=
  m.sizeBytes ++ m.idBytes ++ m.body

@[simp] theorem length_sizeBytes (m : Message) : m.sizeBytes.length = 2 := rfl

@[simp] theorem length_idBytes (m : Message) : m.idBytes.length = 2 := rfl

@[simp] theorem length_encode (m : Message) : m.encode.length = m.totalSize := by
  simp only [encode, totalSize, getHeaderSize, getPacketIdSize, List.length_append,
    length_sizeBytes, length_idBytes]

theorem encode_eq (m : Message) : m.encode = Packet.makeRawBinaries m.packetId m.body := by
  simp only [encode, sizeBytes, idBytes, Packet.makeRawBinaries, Packet.packetSize, totalSize,
    getHeaderSize, getPacketIdSize]
  rw [show 2 + 2 + m.body.length = m.body.length + 2 + 2 by omega]

theorem totalSize_pos (m : Message) : 0 < m.totalSize := by
  simp [totalSize, getHeaderSize]

end Message

def encodings (messages : List Message) : List Byte :=
  (messages.map Message.encode).flatten

theorem encodings_append (left right : List Message) :
    encodings (left ++ right) = encodings left ++ encodings right := by
  simp [encodings]

@[simp] theorem encodings_singleton (m : Message) : encodings [m] = m.encode := by
  simp [encodings]

theorem drop_encodings_take (messages : List Message) (i j : Nat) :
    (encodings (messages.take j)).drop (encodings (messages.take i)).length =
      encodings ((messages.take j).drop i) := by
  rcases Nat.le_total i j with hij | hji
  · have hsplit : messages.take j = messages.take i ++ (messages.take j).drop i := by
      conv_lhs => rw [← List.take_append_drop i (messages.take j), List.take_take,
        Nat.min_eq_left hij]
    conv_lhs => rw [hsplit, encodings_append, List.drop_left]
  · have hsplit : messages.take i = messages.take j ++ (messages.take i).drop j := by
      conv_lhs => rw [← List.take_append_drop j (messages.take i), List.take_take,
        Nat.min_eq_left hji]
    rw [hsplit, encodings_append, List.length_append, List.drop_eq_nil_of_le (by omega),
      List.drop_eq_nil_of_le (by rw [List.length_take]; omega)]
    rfl

/-- `WriteToBuffers`. The list of spans is `buffers[bufferIdx..]`, so advancing
`bufferIdx` drops its head. -/
def writeToBuffers (q : RingBuffer) : List Span → Nat → List Byte → RingBuffer × List Span × Nat
  | [], offsetInSpan, _ => (q, [], offsetInSpan)
  | span :: rest, offsetInSpan, data =>
      if data.length = 0 then (q, span :: rest, offsetInSpan)
      else
        let toCopy := min data.length (span.length - offsetInSpan)
        let q' := q.fill (List.range' (span.offset + offsetInSpan) toCopy) (data.take toCopy)
        if offsetInSpan + toCopy = span.length then
          writeToBuffers q' rest 0 (data.drop toCopy)
        else (q', span :: rest, offsetInSpan + toCopy)

/-- The serialization of the body: straight into the current block when it is
large enough (`SerializeToArray`), else through a temporary string. -/
def writeBody (q : RingBuffer) (spans : List Span) (offsetInSpan : Nat) (body : List Byte) :
    RingBuffer :=
  if body.length > 0 then
    match spans with
    | span :: _ =>
        if span.length - offsetInSpan ≥ body.length then
          q.fill (List.range' (span.offset + offsetInSpan) body.length) body
        else (writeToBuffers q spans offsetInSpan body).1
    | [] => (writeToBuffers q spans offsetInSpan body).1
  else q

def cellsFrom (spans : List Span) (offsetInSpan : Nat) : List Nat :=
  (spanCells spans).drop offsetInSpan

def CursorOk : List Span → Nat → Prop
  | span :: _, offsetInSpan => offsetInSpan ≤ span.length
  | [], offsetInSpan => offsetInSpan = 0

theorem cursorOk_zero (spans : List Span) : CursorOk spans 0 := by
  cases spans <;> simp [CursorOk]

@[simp] theorem cellsFrom_zero (spans : List Span) : cellsFrom spans 0 = spanCells spans := rfl

theorem cellsFrom_cons {span : Span} {rest : List Span} {offsetInSpan : Nat}
    (h : offsetInSpan ≤ span.length) :
    cellsFrom (span :: rest) offsetInSpan =
      List.range' (span.offset + offsetInSpan) (span.length - offsetInSpan) ++ spanCells rest := by
  rw [cellsFrom, spanCells_cons, List.drop_append_of_le_length (by simpa), Span.cells,
    List.drop_range']
  simp

/-- The copy stores its data in the next cells and moves the cursor past them. -/
theorem writeToBuffers_spec (q : RingBuffer) (spans : List Span) (offsetInSpan : Nat)
    (data : List Byte) (hcursor : CursorOk spans offsetInSpan)
    (hfit : data.length ≤ (cellsFrom spans offsetInSpan).length) :
    let result := writeToBuffers q spans offsetInSpan data
    result.1 = q.fill (cellsFrom spans offsetInSpan) data ∧
      CursorOk result.2.1 result.2.2 ∧
      cellsFrom result.2.1 result.2.2 = (cellsFrom spans offsetInSpan).drop data.length := by
  induction spans generalizing q offsetInSpan data with
  | nil =>
    obtain rfl : data = [] := by simpa [cellsFrom] using hfit
    simpa [writeToBuffers, cellsFrom, RingBuffer.fill] using hcursor
  | cons span rest ih =>
    have hoff : offsetInSpan ≤ span.length := hcursor
    rw [cellsFrom_cons hoff] at hfit ⊢
    simp only [List.length_append, List.length_range'] at hfit
    simp only [writeToBuffers]
    by_cases hempty : data.length = 0
    · obtain rfl := List.length_eq_zero_iff.mp hempty
      simp [RingBuffer.fill, cellsFrom_cons hoff, CursorOk, hoff]
    rw [if_neg hempty]
    by_cases hwhole : offsetInSpan + min data.length (span.length - offsetInSpan) = span.length
    · -- the block is used up: the rest of the data goes on in the next one
      have hmin : min data.length (span.length - offsetInSpan) = span.length - offsetInSpan := by
        omega
      rw [if_pos hwhole, hmin]
      obtain ⟨hfill, hnext, hcells⟩ := ih
        (q.fill (List.range' (span.offset + offsetInSpan) (span.length - offsetInSpan))
          (data.take (span.length - offsetInSpan)))
        0 (data.drop (span.length - offsetInSpan)) (cursorOk_zero rest)
        (by rw [cellsFrom_zero, List.length_drop]; omega)
      refine ⟨?_, hnext, ?_⟩
      · rw [hfill, cellsFrom_zero, RingBuffer.fill_fill, List.take_append_drop]
        rw [List.length_range', List.length_take]
        omega
      · have hused : (List.range' (span.offset + offsetInSpan)
            (span.length - offsetInSpan)).drop data.length = [] :=
          List.drop_eq_nil_of_le (by rw [List.length_range']; omega)
        rw [hcells, cellsFrom_zero, List.length_drop, List.drop_append, hused, List.length_range',
          List.nil_append]
    · -- the data ends inside the block
      have hmin : min data.length (span.length - offsetInSpan) = data.length := by omega
      rw [if_neg hwhole, hmin]
      refine ⟨?_, ?_, ?_⟩
      · rw [List.take_length, ← RingBuffer.fill_take (_ ++ _),
          List.take_append_of_le_length (by rw [List.length_range']; omega), take_range',
          Nat.min_eq_left (by omega)]
      · change offsetInSpan + data.length ≤ span.length
        omega
      · change cellsFrom (span :: rest) (offsetInSpan + data.length) = _
        rw [cellsFrom_cons (by omega),
          List.drop_append_of_le_length (by rw [List.length_range']; omega), List.drop_range',
          Nat.mul_one, Nat.add_assoc, Nat.sub_sub]

theorem writeBody_spec (q : RingBuffer) (spans : List Span) (offsetInSpan : Nat)
    (body : List Byte) (hcursor : CursorOk spans offsetInSpan)
    (hfit : body.length ≤ (cellsFrom spans offsetInSpan).length) :
    writeBody q spans offsetInSpan body = q.fill (cellsFrom spans offsetInSpan) body := by
  have hcopy := (writeToBuffers_spec q spans offsetInSpan body hcursor hfit).1
  unfold writeBody
  split
  · split
    · rename_i span rest
      split
      · rename_i hroom
        have hoff : offsetInSpan ≤ span.length := hcursor
        rw [cellsFrom_cons hoff, ← RingBuffer.fill_take (_ ++ _),
          List.take_append_of_le_length (by rw [List.length_range']; exact hroom), take_range',
          Nat.min_eq_left hroom]
      · exact hcopy
    · exact hcopy
  · obtain rfl : body = [] := List.length_eq_zero_iff.mp (by omega)
    simp [RingBuffer.fill]

/-- The three writes of `SendMessage`, one after the other. -/
def writeMessage (q : RingBuffer) (buffers : List Span) (m : Message) : RingBuffer :=
  let first := writeToBuffers q buffers 0 m.sizeBytes
  let second := writeToBuffers first.1 first.2.1 first.2.2 m.idBytes
  writeBody second.1 second.2.1 second.2.2 m.body

theorem writeMessage_spec (q : RingBuffer) {buffers : List Span} {m : Message}
    (h : (spanCells buffers).length = m.totalSize) :
    writeMessage q buffers m = q.fill (spanCells buffers) m.encode := by
  have htotal : (spanCells buffers).length = 2 + 2 + m.body.length := h
  obtain ⟨hfirst, hcursor, hcells⟩ :=
    writeToBuffers_spec q buffers 0 m.sizeBytes (cursorOk_zero _) (by simp [htotal]; omega)
  unfold writeMessage
  dsimp only
  generalize writeToBuffers q buffers 0 m.sizeBytes = first at *
  obtain ⟨hsecond, hcursor', hcells'⟩ :=
    writeToBuffers_spec first.1 first.2.1 first.2.2 m.idBytes hcursor
      (by simp [hcells, htotal]; omega)
  generalize writeToBuffers first.1 first.2.1 first.2.2 m.idBytes = second at *
  rw [writeBody_spec second.1 second.2.1 second.2.2 m.body hcursor'
    (by simp [hcells', hcells, htotal]), hsecond, hfirst, hcells', hcells, cellsFrom_zero,
    RingBuffer.fill_drop _ (by simp [htotal]; omega),
    RingBuffer.fill_drop _ (by simp [htotal]; omega), Message.encode, List.append_assoc]

end FastPort.Sessions
