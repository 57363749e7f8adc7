import Mathlib.Algebra.Group.Action.Defs
import FastPort.Foundation.ProtoWire
import FastPort.Services.ServerStatsCollector
import FastPort.Sessions.SendPath

/-! `AdminPacketHandler`: what `HandlePacket` makes of the requests of the admin channel, the
bytes of the responses, and whether they fit into the receive ring of the client that
asked. -/
namespace FastPort.Services.Admin

open FastPort.Commons FastPort.Foundation.ProtoWire FastPort.Services.Stats FastPort.Sessions

def kPacketId_SessionListRes : UInt16 := 0x8004

structure Header where
  requestId : UInt64 := 0
  timestampMs : UInt64 := 0
deriving DecidableEq, Repr

/-- The fields of a parsed request that the handler reads; an absent header reads as the
default one. -/
structure AdminSessionListRequest where
  header : Header := {}
  offset : UInt32 := 0
  limit : UInt32 := 0
deriving DecidableEq, Repr

def resultCodeOk : Nat := 1

structure AdminSessionInfo where
  sessionId : UInt64
  lastRecvMs : Int64
  rxBytes : UInt64
  txBytes : UInt64
deriving DecidableEq, Repr

structure AdminSessionListResponse where
  header : Header
  result : Nat
  total : UInt32
  offset : UInt32
  sessions : List AdminSessionInfo
deriving DecidableEq, Repr

def Header.serialize (h : Header) : List Byte :=
  varintField 1 h.requestId.toNat ++ varintField 2 h.timestampMs.toNat

def AdminSessionInfo.serialize (s : AdminSessionInfo) : List Byte :=
  varintField 1 s.sessionId.toNat ++ varintField 2 s.lastRecvMs.toUInt64.toNat ++
    varintField 3 s.rxBytes.toNat ++ varintField 4 s.txBytes.toNat

def AdminSessionListResponse.serialize (r : AdminSessionListResponse) : List Byte :=
  messageField 1 r.header.serialize ++ varintField 2 r.result ++
    varintField 3 r.total.toNat ++ varintField 4 r.offset.toNat ++
    (r.sessions.map fun s => messageField 5 s.serialize).flatten

def adminSessionInfo (s : SessionInfoData) : AdminSessionInfo where
  sessionId := s.sessionId
  lastRecvMs := s.lastRecvMs
  rxBytes := s.rxBytes
  txBytes := s.txBytes

def sessionListResponse (request : AdminSessionListRequest) (listData : SessionListData) :
    AdminSessionListResponse where
  header := request.header
  result := resultCodeOk
  total := listData.total
  offset := listData.offset
  sessions := listData.sessions.map adminSessionInfo

/-- `none` for a request that does not parse; the message is what `SendMessage` gets. -/
def handleSessionListRequest (sessionProvider : Option Provided) :
    Option AdminSessionListRequest → Except Fault (Option Message)
  | none => .ok none
  | some request =>
      match snapshotSessions sessionProvider request.offset request.limit with
      | .error fault => .error fault
      | .ok listData => .ok (some
          ⟨kPacketId_SessionListRes, (sessionListResponse request listData).serialize⟩)

/-- `bufferSize` in the test client's session factory. -/
def clientBufferSize : Nat := 8 * 1024

/-- The frame keeps to the 16-bit length field and to the client's receive ring. -/
def Deliverable (m : Message) : Prop :=
  m.totalSize ≤ 65535 ∧ m.totalSize ≤ clientBufferSize

instance (m : Message) : Decidable (Deliverable m) := inferInstanceAs (Decidable (_ ∧ _))

def selected (sessionProvider : Option Provided) (request : AdminSessionListRequest) : Snapshot :=
  match sessionProvider with
  | some (.snapshot snapshot) => page snapshot request.offset request.limit
  | _ => []

def snapshotSize : Option Provided → Nat
  | some (.snapshot snapshot) => snapshot.length % 2 ^ 32
  | _ => 0

/-- The bytes one entry of the snapshot takes: none for a null pointer, else its tag and
its length, and for each field that is not zero its tag and its seven-bit groups. -/
def entrySize : Option SessionStats → Nat
  | none => 0
  | some s =>
      2 + fieldSize (s.sessionId.getD 0).toNat +
        fieldSize (s.lastRecvTimeMs.getD 0).toUInt64.toNat +
        fieldSize s.totalRxBytes.toNat + fieldSize s.totalTxBytes.toNat

/-- The bytes around the entries: size field and id, the echoed header, the result, the
total and the offset. -/
def envelopeSize (sessionProvider : Option Provided) (request : AdminSessionListRequest) : Nat :=
  4 + (2 + fieldSize request.header.requestId.toNat +
    fieldSize request.header.timestampMs.toNat) + 2 +
    fieldSize (snapshotSize sessionProvider) + fieldSize request.offset.toNat

/-- The entries selected leave the ring's capacity enough room for the rest. -/
def FitsClient (sessionProvider : Option Provided) (request : AdminSessionListRequest) : Prop :=
  envelopeSize sessionProvider request +
    ((selected sessionProvider request).map entrySize).sum ≤ 8192

instance (sessionProvider : Option Provided) (request : AdminSessionListRequest) :
    Decidable (FitsClient sessionProvider request) := inferInstanceAs (Decidable (_ ≤ _))

variable {sessionProvider : Option Provided} {request : AdminSessionListRequest} {m : Message}

theorem handleSessionListRequest_eq (snapshot : Snapshot) (request : AdminSessionListRequest) :
    handleSessionListRequest (some (.snapshot snapshot)) (some request) =
      .ok (some ⟨kPacketId_SessionListRes, (sessionListResponse request
        ⟨UInt32.ofNat snapshot.length, request.offset,
          infos (page snapshot request.offset request.limit)⟩).serialize⟩) := by
  simp only [handleSessionListRequest, snapshotSessions_eq]

theorem length_header (h : Header) :
    h.serialize.length = fieldSize h.requestId.toNat + fieldSize h.timestampMs.toNat := by
  rw [Header.serialize, List.length_append, length_varintField (by decide),
    length_varintField (by decide)]

theorem length_header_le (h : Header) : h.serialize.length ≤ 22 := by
  have hid := fieldSize_le_of_uint64 h.requestId
  have htime := fieldSize_le_of_uint64 h.timestampMs
  rw [length_header]
  omega

theorem length_sessionInfo (s : SessionStats) :
    2 + (adminSessionInfo s.info).serialize.length = entrySize (some s) := by
  simp only [AdminSessionInfo.serialize, List.length_append,
    length_varintField (show 1 < 16 by decide), length_varintField (show 2 < 16 by decide),
    length_varintField (show 3 < 16 by decide), length_varintField (show 4 < 16 by decide),
    entrySize, adminSessionInfo, SessionStats.info]
  omega

theorem entrySize_le (entry : Option SessionStats) : entrySize entry ≤ 46 := by
  cases entry with
  | none => exact Nat.zero_le _
  | some s =>
    have hid := fieldSize_le_of_uint64 (s.sessionId.getD 0)
    have htime := fieldSize_le_of_uint64 (s.lastRecvTimeMs.getD 0).toUInt64
    have hrx := fieldSize_le_of_uint64 s.totalRxBytes
    have htx := fieldSize_le_of_uint64 s.totalTxBytes
    simp only [entrySize]
    omega

theorem length_entries (entries : Snapshot) :
    (((infos entries).map adminSessionInfo).map fun s => messageField 5 s.serialize).flatten.length
      = (entries.map entrySize).sum := by
  induction entries with
  | nil => rfl
  | cons entry entries ih =>
    cases entry with
    | none =>
      rw [List.map_cons, List.sum_cons, ← ih, entrySize, Nat.zero_add]
      rfl
    | some s =>
      have hinfo := length_sessionInfo s
      have hle := entrySize_le (some s)
      rw [List.map_cons, List.sum_cons, ← ih, ← hinfo,
        ← length_messageField (show 5 < 16 by decide) (by omega), ← List.length_append]
      rfl

theorem totalSize_response {snapshotTotal offset : UInt32} (entries : Snapshot)
    (hm : m = ⟨kPacketId_SessionListRes, (sessionListResponse request
      ⟨snapshotTotal, offset, infos entries⟩).serialize⟩) :
    m.totalSize = 4 + (2 + fieldSize request.header.requestId.toNat +
      fieldSize request.header.timestampMs.toNat) + 2 + fieldSize snapshotTotal.toNat +
      fieldSize offset.toNat + (entries.map entrySize).sum := by
  have hheader := length_header request.header
  have hle := length_header_le request.header
  have hmessage := length_messageField (show 1 < 16 by decide)
    (show request.header.serialize.length < 128 by omega)
  have hresult : fieldSize resultCodeOk = 2 := by
    rw [fieldSize, if_neg (by decide), groups_of_lt (by decide)]
  subst hm
  simp only [Message.totalSize, FastPort.Core.getHeaderSize, FastPort.Core.getPacketIdSize,
    AdminSessionListResponse.serialize, sessionListResponse, List.length_append, length_entries,
    length_varintField (show 2 < 16 by decide), length_varintField (show 3 < 16 by decide),
    length_varintField (show 4 < 16 by decide), hresult, hmessage]
  omega

theorem totalSize_eq
    (h : handleSessionListRequest sessionProvider (some request) = .ok (some m)) :
    m.totalSize = envelopeSize sessionProvider request +
      ((selected sessionProvider request).map entrySize).sum := by
  match sessionProvider with
  | none =>
    have hm := totalSize_response [] (Option.some.inj (Except.ok.inj h)).symm
    exact hm
  | some (.snapshot snapshot) =>
    rw [handleSessionListRequest_eq] at h
    have hm := totalSize_response _ (Option.some.inj (Except.ok.inj h)).symm
    rw [UInt32.toNat_ofNat'] at hm
    exact hm
  | some .stdException =>
    have hm := totalSize_response [] (Option.some.inj (Except.ok.inj h)).symm
    exact hm
  | some .foreignException => cases h

theorem envelopeSize_le (sessionProvider : Option Provided) (request : AdminSessionListRequest) :
    envelopeSize sessionProvider request ≤ 42 := by
  have hid := fieldSize_le_of_uint64 request.header.requestId
  have htime := fieldSize_le_of_uint64 request.header.timestampMs
  have hoffset := fieldSize_le_of_uint32 request.offset
  have htotal : fieldSize (snapshotSize sessionProvider) ≤ 6 := by
    refine fieldSize_le (k := 4) ?_
    unfold snapshotSize
    split
    · exact (Nat.mod_lt _ (by decide)).trans (by decide)
    · decide
  unfold envelopeSize
  omega

theorem sum_entrySize_le (entries : Snapshot) :
    (entries.map entrySize).sum ≤ 46 * entries.length := by
  have hsum := List.sum_le_card_nsmul (entries.map entrySize) 46 fun size hmem => by
    obtain ⟨entry, -, rfl⟩ := List.mem_map.mp hmem
    exact entrySize_le entry
  rwa [List.length_map, smul_eq_mul, Nat.mul_comm] at hsum

theorem length_selected_le (sessionProvider : Option Provided)
    (request : AdminSessionListRequest) :
    (selected sessionProvider request).length ≤ (clampLimit request.limit).toNat := by
  unfold selected
  split
  · exact length_page_le _ _ _
  · exact Nat.zero_le _

theorem fitsClient_of_length_le (h : (selected sessionProvider request).length ≤ 177) :
    FitsClient sessionProvider request := by
  have henvelope := envelopeSize_le sessionProvider request
  have hentries := sum_entrySize_le (selected sessionProvider request)
  unfold FitsClient
  omega

/-- A page of the largest size keeps to the length field; it reaches the client exactly
if the entries it selects fit. -/
theorem session_list_deliverable_iff
    (h : handleSessionListRequest sessionProvider (some request) = .ok (some m)) :
    m.totalSize ≤ 65535 ∧ (Deliverable m ↔ FitsClient sessionProvider request) := by
  have hsize := totalSize_eq h
  have henvelope := envelopeSize_le sessionProvider request
  have hentries := sum_entrySize_le (selected sessionProvider request)
  have hselected := length_selected_le sessionProvider request
  have hclamp := clampLimit_le request.limit
  have hmax : m.totalSize ≤ 65535 := by omega
  refine ⟨hmax, ?_⟩
  unfold Deliverable FitsClient clientBufferSize
  rw [← hsize]
  exact ⟨fun hboth => hboth.2, fun hfits => ⟨hmax, hfits⟩⟩

theorem session_list_deliverable_of_two : ∃ m,
    handleSessionListRequest
      (some (.snapshot [some ⟨1, 2, none, some 7⟩, none, some ⟨3, 4, some 5, some 8⟩]))
      (some { limit := 100 }) = .ok (some m) ∧ Deliverable m := by
  have hanswer := handleSessionListRequest_eq
    [some ⟨1, 2, none, some 7⟩, none, some ⟨3, 4, some 5, some 8⟩] { limit := 100 }
  refine ⟨_, hanswer, ?_⟩
  exact (session_list_deliverable_iff hanswer).2.mpr (fitsClient_of_length_le (by decide))

/-- A thousand sessions of a megabyte each way. -/
def busySnapshot : Snapshot :=
  (List.range 1000).map fun i =>
    some ⟨1000000, 1000000, some 1000000000, some (UInt64.ofNat (i + 1))⟩

theorem le_entrySize {id : Option UInt64} :
    16 ≤ entrySize (some ⟨1000000, 1000000, some 1000000000, id⟩) := by
  have hbytes : fieldSize 1000000 = 4 := by simp [fieldSize, groups]
  have htime : fieldSize 1000000000 = 6 := by simp [fieldSize, groups]
  simp only [entrySize, Option.getD_some]
  change 16 ≤ 2 + fieldSize _ + fieldSize 1000000000 + fieldSize 1000000 + fieldSize 1000000
  omega

/-- The page of a thousand sessions that the client may ask for does not fit into its
receive ring. -/
theorem not_session_list_deliverable : ∃ m,
    handleSessionListRequest (some (.snapshot busySnapshot)) (some { limit := 1000 }) =
      .ok (some m) ∧ ¬ Deliverable m := by
  have hlength : busySnapshot.length = 1000 := by simp [busySnapshot]
  have hselected : selected (some (.snapshot busySnapshot)) { limit := 1000 } = busySnapshot := by
    have hpage : page busySnapshot 0 1000 = (busySnapshot.drop 0).take 1000 :=
      page_of_lt (by omega) (by rw [hlength]; decide)
    exact hpage.trans (List.take_of_length_le (Nat.le_of_eq hlength))
  have hanswer := handleSessionListRequest_eq busySnapshot { limit := 1000 }
  refine ⟨_, hanswer, fun hdeliverable => ?_⟩
  have hsize := totalSize_eq hanswer
  have hsum := List.card_nsmul_le_sum (busySnapshot.map entrySize) 16 fun size hmem => by
    obtain ⟨entry, hentry, rfl⟩ := List.mem_map.mp hmem
    obtain ⟨i, -, rfl⟩ := List.mem_map.mp hentry
    exact le_entrySize
  rw [hselected] at hsize
  rw [List.length_map, hlength, smul_eq_mul] at hsum
  have hle := hdeliverable.2
  unfold clientBufferSize at hle
  omega

def kPacketId_SummaryRequest : UInt16 := 0x8001
def kPacketId_SummaryResponse : UInt16 := 0x8002
def kPacketId_SessionListReq : UInt16 := 0x8003

def isAdminPacketId (id : UInt16) : Bool := id &&& 0xF000 == 0x8000

def toProtoServerMode : ServerMode → Nat
  | .iocp => 1
  | .rio => 2
  | .unknown => 0

structure AdminStatusSummaryResponse where
  header : Header
  result : Nat
  serverUptimeMs : UInt64
  activeSessionCount : UInt32
  totalRxBytes : UInt64
  totalTxBytes : UInt64
  idleDisconnectCount : UInt64
  serverMode : ServerMode
  processMemoryBytes : UInt64
  processCpuPercent : UInt64
  serverTimestampMs : UInt64
deriving DecidableEq, Repr

def AdminStatusSummaryResponse.serialize (r : AdminStatusSummaryResponse) : List Byte :=
  messageField 1 r.header.serialize ++ varintField 2 r.result ++
    varintField 3 r.serverUptimeMs.toNat ++ varintField 4 r.activeSessionCount.toNat ++
    varintField 5 r.totalRxBytes.toNat ++ varintField 6 r.totalTxBytes.toNat ++
    varintField 7 r.idleDisconnectCount.toNat ++ varintField 8 (toProtoServerMode r.serverMode) ++
    varintField 9 r.processMemoryBytes.toNat ++ fixed64Field 10 r.processCpuPercent ++
    varintField 11 r.serverTimestampMs.toNat

def summaryResponse (header : Header) (summary : SummaryData) : AdminStatusSummaryResponse where
  header := header
  result := resultCodeOk
  serverUptimeMs := summary.uptimeMs.toUInt64
  activeSessionCount := summary.activeSessionCount
  totalRxBytes := summary.totalRxBytes
  totalTxBytes := summary.totalTxBytes
  idleDisconnectCount := summary.idleDisconnectCount
  serverMode := summary.serverMode
  processMemoryBytes := summary.processMemoryBytes
  processCpuPercent := summary.processCpuPercent
  serverTimestampMs := summary.serverTimestampMs.toUInt64

/-- Of the request only the header is read; `none` for one that does not parse. -/
def handleSummaryRequest (collector : ServerStatsCollector) (readings : Readings) :
    Option Header → Except Fault (Option Message)
  | none => .ok none
  | some header =>
      match snapshotSummary collector readings with
      | .error fault => .error fault
      | .ok summary => .ok (some
          ⟨kPacketId_SummaryResponse, (summaryResponse header summary).serialize⟩)

structure Parsers where
  summaryRequest : List Byte → Option Header
  sessionListRequest : List Byte → Option AdminSessionListRequest

/-- The result of `HandlePacket`, and the message it has sent. -/
structure Handled where
  consumed : Bool
  sent : Option Message
deriving DecidableEq, Repr

def handlePacket (parsers : Parsers) (collector : ServerStatsCollector) (readings : Readings)
    (packet : FastPort.Core.Packet) : Except Fault Handled :=
  if !isAdminPacketId packet.getPacketId then .ok ⟨false, none⟩
  else
    let sent :=
      if packet.getPacketId = kPacketId_SummaryRequest then
        handleSummaryRequest collector readings (parsers.summaryRequest packet.payload)
      else if packet.getPacketId = kPacketId_SessionListReq then
        handleSessionListRequest readings.sessionProvider
          (parsers.sessionListRequest packet.payload)
      else .ok none
    sent.map fun m => ⟨true, m⟩

theorem handlePacket_summary {parsers : Parsers} {collector : ServerStatsCollector}
    {readings : Readings} {packet : FastPort.Core.Packet}
    (hid : packet.getPacketId = kPacketId_SummaryRequest) :
    handlePacket parsers collector readings packet =
      (handleSummaryRequest collector readings (parsers.summaryRequest packet.payload)).map
        (⟨true, ·⟩) := by
  have hadmin : isAdminPacketId kPacketId_SummaryRequest = true := by decide
  simp [handlePacket, hid, hadmin]

theorem handlePacket_sessionList {parsers : Parsers} {collector : ServerStatsCollector}
    {readings : Readings} {packet : FastPort.Core.Packet}
    (hid : packet.getPacketId = kPacketId_SessionListReq) :
    handlePacket parsers collector readings packet =
      (handleSessionListRequest readings.sessionProvider
        (parsers.sessionListRequest packet.payload)).map (⟨true, ·⟩) := by
  have hadmin : isAdminPacketId kPacketId_SessionListReq = true := by decide
  have hother : kPacketId_SessionListReq ≠ kPacketId_SummaryRequest := by decide
  simp [handlePacket, hid, hadmin, hother]

theorem length_summaryResponse_le (r : AdminStatusSummaryResponse)
    (hresult : r.result = resultCodeOk) : r.serialize.length ≤ 124 := by
  have hheader := length_header_le r.header
  have hmessage := length_messageField (show 1 < 16 by decide)
    (show r.header.serialize.length < 128 by omega)
  have hok : fieldSize r.result ≤ 2 := by
    rw [hresult]
    exact fieldSize_le (k := 0) (by decide)
  have huptime := fieldSize_le_of_uint64 r.serverUptimeMs
  have hcount := fieldSize_le_of_uint32 r.activeSessionCount
  have hrx := fieldSize_le_of_uint64 r.totalRxBytes
  have htx := fieldSize_le_of_uint64 r.totalTxBytes
  have hidle := fieldSize_le_of_uint64 r.idleDisconnectCount
  have hmode : fieldSize (toProtoServerMode r.serverMode) ≤ 2 := by
    refine fieldSize_le (k := 0) ?_
    cases r.serverMode <;> decide
  have hmemory := fieldSize_le_of_uint64 r.processMemoryBytes
  have hcpu := length_fixed64Field_le (show 10 < 15 by decide) r.processCpuPercent
  have htime := fieldSize_le_of_uint64 r.serverTimestampMs
  simp only [AdminStatusSummaryResponse.serialize, List.length_append, hmessage,
    length_varintField (show 2 < 16 by decide), length_varintField (show 3 < 16 by decide),
    length_varintField (show 4 < 16 by decide), length_varintField (show 5 < 16 by decide),
    length_varintField (show 6 < 16 by decide), length_varintField (show 7 < 16 by decide),
    length_varintField (show 8 < 16 by decide), length_varintField (show 9 < 16 by decide),
    length_varintField (show 11 < 16 by decide)]
  omega

theorem handleSummaryRequest_eq {collector : ServerStatsCollector} {readings : Readings}
    {parsed : Option Header} (h : handleSummaryRequest collector readings parsed = .ok (some m)) :
    ∃ header summary, parsed = some header ∧
      m = ⟨kPacketId_SummaryResponse, (summaryResponse header summary).serialize⟩ := by
  cases parsed with
  | none => cases h
  | some header =>
    simp only [handleSummaryRequest] at h
    split at h
    · cases h
    · cases h
      exact ⟨header, _, rfl, rfl⟩

theorem totalSize_summary_le {collector : ServerStatsCollector} {readings : Readings}
    {parsed : Option Header} (h : handleSummaryRequest collector readings parsed = .ok (some m)) :
    m.totalSize ≤ 128 := by
  obtain ⟨header, summary, -, rfl⟩ := handleSummaryRequest_eq h
  have hlength := length_summaryResponse_le (summaryResponse header summary) rfl
  simp only [Message.totalSize, FastPort.Core.getHeaderSize, FastPort.Core.getPacketIdSize]
  omega

end FastPort.Services.Admin
