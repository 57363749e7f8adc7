import FastPort.Foundation.ProtoParse
import FastPort.Services.AdminPacketHandler

/-! The messages of the admin channel as the generated classes read them: what one end
serializes the other parses back. -/
namespace FastPort.Services.Admin

open FastPort.Commons FastPort.Foundation.ProtoWire FastPort.Services.Stats

def Header.mergeField (h : Header) : Nat → WireValue → Option Header
  | 1, .varint bits => some { h with requestId := bits }
  | 2, .varint bits => some { h with timestampMs := bits }
  | _, _ => some h

def isUtf8 (bytes : List Byte) : Bool := (ByteArray.mk bytes.toArray).validateUTF8

/-- Of `AdminStatusSummaryRequest` only the header is kept; field 2 is `auth_token`. -/
def summaryRequestField (header : Header) : Nat → WireValue → Option Header
  | 1, .lengthDelimited bytes => merge Header.mergeField header bytes
  | 2, .lengthDelimited bytes => if isUtf8 bytes then some header else none
  | _, _ => some header

def AdminSessionListRequest.mergeField (r : AdminSessionListRequest) :
    Nat → WireValue → Option AdminSessionListRequest
  | 1, .lengthDelimited bytes =>
      (merge Header.mergeField r.header bytes).map fun header => { r with header := header }
  | 2, .varint bits => some { r with offset := bits.toUInt32 }
  | 3, .varint bits => some { r with limit := bits.toUInt32 }
  | 4, .lengthDelimited bytes => if isUtf8 bytes then some r else none
  | _, _ => some r

def serializeSummaryRequest (header : Header) : List Byte := messageField 1 header.serialize

def AdminSessionListRequest.serialize (r : AdminSessionListRequest) : List Byte :=
  messageField 1 r.header.serialize ++ varintField 2 r.offset.toNat ++
    varintField 3 r.limit.toNat

def protoParsers : Parsers where
  summaryRequest bytes := merge summaryRequestField {} bytes
  sessionListRequest bytes := merge AdminSessionListRequest.mergeField {} bytes

def ofProtoServerMode : UInt32 → ServerMode
  | 1 => .iocp
  | 2 => .rio
  | _ => .unknown

def AdminStatusSummaryResponse.default : AdminStatusSummaryResponse where
  header := {}
  result := 0
  serverUptimeMs := 0
  activeSessionCount := 0
  totalRxBytes := 0
  totalTxBytes := 0
  idleDisconnectCount := 0
  serverMode := .unknown
  processMemoryBytes := 0
  processCpuPercent := 0
  serverTimestampMs := 0

def AdminStatusSummaryResponse.mergeField (r : AdminStatusSummaryResponse) :
    Nat → WireValue → Option AdminStatusSummaryResponse
  | 1, .lengthDelimited bytes =>
      (merge Header.mergeField r.header bytes).map fun header => { r with header := header }
  | 2, .varint bits => some { r with result := bits.toUInt32.toNat }
  | 3, .varint bits => some { r with serverUptimeMs := bits }
  | 4, .varint bits => some { r with activeSessionCount := bits.toUInt32 }
  | 5, .varint bits => some { r with totalRxBytes := bits }
  | 6, .varint bits => some { r with totalTxBytes := bits }
  | 7, .varint bits => some { r with idleDisconnectCount := bits }
  | 8, .varint bits => some { r with serverMode := ofProtoServerMode bits.toUInt32 }
  | 9, .varint bits => some { r with processMemoryBytes := bits }
  | 10, .fixed64 bits => some { r with processCpuPercent := bits }
  | 11, .varint bits => some { r with serverTimestampMs := bits }
  | _, _ => some r

def AdminSessionInfo.default : AdminSessionInfo where
  sessionId := 0
  lastRecvMs := 0
  rxBytes := 0
  txBytes := 0

def AdminSessionInfo.mergeField (s : AdminSessionInfo) :
    Nat → WireValue → Option AdminSessionInfo
  | 1, .varint bits => some { s with sessionId := bits }
  | 2, .varint bits => some { s with lastRecvMs := bits.toInt64 }
  | 3, .varint bits => some { s with rxBytes := bits }
  | 4, .varint bits => some { s with txBytes := bits }
  | _, _ => some s

def AdminSessionListResponse.default : AdminSessionListResponse where
  header := {}
  result := 0
  total := 0
  offset := 0
  sessions := []

def AdminSessionListResponse.mergeField (r : AdminSessionListResponse) :
    Nat → WireValue → Option AdminSessionListResponse
  | 1, .lengthDelimited bytes =>
      (merge Header.mergeField r.header bytes).map fun header => { r with header := header }
  | 2, .varint bits => some { r with result := bits.toUInt32.toNat }
  | 3, .varint bits => some { r with total := bits.toUInt32 }
  | 4, .varint bits => some { r with offset := bits.toUInt32 }
  | 5, .lengthDelimited bytes =>
      (merge AdminSessionInfo.mergeField .default bytes).map fun session =>
        { r with sessions := r.sessions ++ [session] }
  | _, _ => some r

theorem merge_header (h : Header) : merge Header.mergeField {} h.serialize = some h := by
  rw [← List.append_nil h.serialize, Header.serialize, List.append_assoc,
    merge_varintField (by decide) (by decide) h.requestId.toNat_lt rfl rfl,
    merge_varintField (by decide) (by decide) h.timestampMs.toNat_lt rfl rfl]
  simp

theorem length_header_lt (h : Header) : h.serialize.length < 2 ^ 31 :=
  (length_header_le h).trans_lt (by decide)

theorem merge_sessionInfo (s : AdminSessionInfo) :
    merge AdminSessionInfo.mergeField .default s.serialize = some s := by
  rw [← List.append_nil s.serialize, AdminSessionInfo.serialize, List.append_assoc,
    List.append_assoc, List.append_assoc,
    merge_varintField (by decide) (by decide) s.sessionId.toNat_lt rfl rfl,
    merge_varintField (by decide) (by decide) s.lastRecvMs.toUInt64.toNat_lt rfl rfl,
    merge_varintField (by decide) (by decide) s.rxBytes.toNat_lt rfl rfl,
    merge_varintField (by decide) (by decide) s.txBytes.toNat_lt rfl rfl]
  simp

theorem summaryRequest_serialize (header : Header) :
    protoParsers.summaryRequest (serializeSummaryRequest header) = some header := by
  have hheader : summaryRequestField {} 1 (.lengthDelimited header.serialize) = some header :=
    merge_header header
  change merge summaryRequestField {} (serializeSummaryRequest header) = some header
  rw [← List.append_nil (serializeSummaryRequest header), serializeSummaryRequest,
    merge_messageField (by decide) (by decide) (length_header_lt header) hheader, merge_nil]

theorem sessionListRequest_serialize (r : AdminSessionListRequest) :
    protoParsers.sessionListRequest r.serialize = some r := by
  have hheader : AdminSessionListRequest.mergeField {} 1 (.lengthDelimited r.header.serialize) =
      some { header := r.header } := by
    simp [AdminSessionListRequest.mergeField, merge_header]
  have hoffset := r.offset.toNat_lt.trans (show 2 ^ 32 < 2 ^ 64 by decide)
  have hlimit := r.limit.toNat_lt.trans (show 2 ^ 32 < 2 ^ 64 by decide)
  change merge AdminSessionListRequest.mergeField {} r.serialize = some r
  rw [← List.append_nil r.serialize, AdminSessionListRequest.serialize, List.append_assoc,
    List.append_assoc,
    merge_messageField (by decide) (by decide) (length_header_lt r.header) hheader,
    merge_varintField (by decide) (by decide) hoffset rfl rfl,
    merge_varintField (by decide) (by decide) hlimit rfl rfl]
  simp

theorem length_sessionInfo_lt (s : AdminSessionInfo) : s.serialize.length < 2 ^ 31 := by
  have hid := fieldSize_le_of_uint64 s.sessionId
  have htime := fieldSize_le_of_uint64 s.lastRecvMs.toUInt64
  have hrx := fieldSize_le_of_uint64 s.rxBytes
  have htx := fieldSize_le_of_uint64 s.txBytes
  simp only [AdminSessionInfo.serialize, List.length_append,
    length_varintField (show 1 < 16 by decide), length_varintField (show 2 < 16 by decide),
    length_varintField (show 3 < 16 by decide), length_varintField (show 4 < 16 by decide)]
  omega

theorem merge_sessions (r : AdminSessionListResponse) (sessions : List AdminSessionInfo)
    (rest : List Byte) :
    merge AdminSessionListResponse.mergeField r
        ((sessions.map fun s => messageField 5 s.serialize).flatten ++ rest) =
      merge AdminSessionListResponse.mergeField { r with sessions := r.sessions ++ sessions }
        rest := by
  induction sessions generalizing r with
  | nil => simp
  | cons s sessions ih =>
    have hupdate : r.mergeField 5 (.lengthDelimited s.serialize) =
        some { r with sessions := r.sessions ++ [s] } := by
      simp [AdminSessionListResponse.mergeField, merge_sessionInfo]
    rw [List.map_cons, List.flatten_cons, List.append_assoc,
      merge_messageField (by decide) (by decide) (length_sessionInfo_lt s) hupdate, ih]
    simp

theorem merge_sessionListResponse (r : AdminSessionListResponse)
    (hresult : r.result = resultCodeOk) :
    merge AdminSessionListResponse.mergeField .default r.serialize = some r := by
  have hheader : AdminSessionListResponse.mergeField .default 1
      (.lengthDelimited r.header.serialize) = some { AdminSessionListResponse.default with
        header := r.header } := by
    simp [AdminSessionListResponse.mergeField, AdminSessionListResponse.default, merge_header]
  have htotal := r.total.toNat_lt.trans (show 2 ^ 32 < 2 ^ 64 by decide)
  have hoffset := r.offset.toNat_lt.trans (show 2 ^ 32 < 2 ^ 64 by decide)
  rw [← List.append_nil r.serialize, AdminSessionListResponse.serialize, List.append_assoc,
    List.append_assoc, List.append_assoc, List.append_assoc,
    merge_messageField (by decide) (by decide) (length_header_lt r.header) hheader,
    merge_varintField (by decide) (by decide) (hresult ▸ by decide) rfl rfl,
    merge_varintField (by decide) (by decide) htotal rfl rfl,
    merge_varintField (by decide) (by decide) hoffset rfl rfl, merge_sessions]
  obtain ⟨header, result, total, offset, sessions⟩ := r
  obtain rfl : result = resultCodeOk := hresult
  simp [AdminSessionListResponse.default, resultCodeOk]

theorem merge_summaryResponse (r : AdminStatusSummaryResponse)
    (hresult : r.result = resultCodeOk) :
    merge AdminStatusSummaryResponse.mergeField .default r.serialize = some r := by
  have hheader : AdminStatusSummaryResponse.mergeField .default 1
      (.lengthDelimited r.header.serialize) = some { AdminStatusSummaryResponse.default with
        header := r.header } := by
    simp [AdminStatusSummaryResponse.mergeField, AdminStatusSummaryResponse.default, merge_header]
  have hactive := r.activeSessionCount.toNat_lt.trans (show 2 ^ 32 < 2 ^ 64 by decide)
  have hmode : toProtoServerMode r.serverMode < 2 ^ 64 := by
    cases r.serverMode <;> decide
  rw [← List.append_nil r.serialize, AdminStatusSummaryResponse.serialize]
  simp only [List.append_assoc]
  rw [merge_messageField (by decide) (by decide) (length_header_lt r.header) hheader,
    merge_varintField (by decide) (by decide) (hresult ▸ by decide) rfl rfl,
    merge_varintField (by decide) (by decide) r.serverUptimeMs.toNat_lt rfl rfl,
    merge_varintField (by decide) (by decide) hactive rfl rfl,
    merge_varintField (by decide) (by decide) r.totalRxBytes.toNat_lt rfl rfl,
    merge_varintField (by decide) (by decide) r.totalTxBytes.toNat_lt rfl rfl,
    merge_varintField (by decide) (by decide) r.idleDisconnectCount.toNat_lt rfl rfl,
    merge_varintField (by decide) (by decide) hmode rfl rfl,
    merge_varintField (by decide) (by decide) r.processMemoryBytes.toNat_lt rfl rfl,
    merge_fixed64Field (by decide) (by decide) rfl rfl,
    merge_varintField (by decide) (by decide) r.serverTimestampMs.toNat_lt rfl rfl]
  obtain ⟨header, result, uptime, active, rx, tx, idle, mode, memory, cpu, timestamp⟩ := r
  obtain rfl : result = resultCodeOk := hresult
  cases mode <;> simp [toProtoServerMode, ofProtoServerMode, resultCodeOk]

end FastPort.Services.Admin
