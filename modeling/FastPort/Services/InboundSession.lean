import FastPort.Services.AdminPacketHandler

/-! `OnPacketReceived` of the inbound sessions: what a server answers a packet with. The
generated protobuf classes are a parameter. The IOCP and the RIO server share this code but
for the name of the class that the log lines carry. -/
namespace FastPort.Services.Inbound

open FastPort.Commons FastPort.Core FastPort.Services.Admin FastPort.Services.Stats
open FastPort.Sessions

def packetIdEchoRequest : UInt16 := 1
def packetIdBenchmarkRequest : UInt16 := 0x1001
def packetIdBenchmarkResponse : UInt16 := 0x1002

structure BenchmarkRequest where
  header : Header := {}
  clientTimestampNs : UInt64 := 0
  sequence : UInt32 := 0
  payload : List Byte := []
deriving DecidableEq, Repr

structure BenchmarkResponse where
  header : Header
  result : Nat
  clientTimestampNs : UInt64
  serverRecvTimestampNs : UInt64
  serverSendTimestampNs : UInt64
  sequence : UInt32
  payload : List Byte
deriving DecidableEq, Repr

structure EchoRequest where
  header : Header := {}
  dataStr : List Byte := []
deriving DecidableEq, Repr

structure EchoResponse where
  header : Header
  result : Nat
  dataStr : List Byte
deriving DecidableEq, Repr

/-- `ParseFromString` and the serialization of the generated classes. -/
structure Codec where
  admin : Parsers
  benchmarkRequest : List Byte → Option BenchmarkRequest
  benchmarkResponse : BenchmarkResponse → List Byte
  echoRequest : List Byte → Option EchoRequest
  echoResponse : EchoResponse → List Byte

/-- The readings of the clocks on the way through a handler, and what the admin channel sees:
`admin` is `none` while the global handler is a null pointer. -/
structure Inputs where
  recvTimestampNs : UInt64
  sendTimestampNs : UInt64
  timeS : UInt64
  admin : Option (ServerStatsCollector × Readings)

/-- The providers of the RIO server: a snapshot of the session container, and the constant 0
for the idle count. -/
def rioReadings (steadyMs wallMs : Int64) (snapshot : Snapshot) (sampler : Option Sampled) :
    Readings where
  steadyMs := steadyMs
  wallMs := wallMs
  sessionProvider := some (.snapshot snapshot)
  idleCount := some 0
  sampler := sampler

variable (codec : Codec) (inputs : Inputs) (packet : Packet)

def handleBenchmarkRequest : Option Message :=
  (codec.benchmarkRequest packet.payload).map fun request =>
    ⟨packetIdBenchmarkResponse, codec.benchmarkResponse {
      header := request.header
      result := resultCodeOk
      clientTimestampNs := request.clientTimestampNs
      serverRecvTimestampNs := inputs.recvTimestampNs
      serverSendTimestampNs := inputs.sendTimestampNs
      sequence := request.sequence
      payload := request.payload }⟩

def handleEchoRequest : Option Message :=
  (codec.echoRequest packet.payload).map fun request =>
    ⟨packet.getPacketId, codec.echoResponse {
      header := ⟨request.header.requestId + 1, inputs.timeS⟩
      result := resultCodeOk
      dataStr := request.dataStr }⟩

/-- The message that the handler of a packet sends, if any. What leaves `HandlePacket` as an
exception has sent nothing. -/
def onPacketReceived : Option Message :=
  if isAdminPacketId packet.getPacketId then
    match inputs.admin with
    | none => none
    | some (collector, readings) =>
        match handlePacket codec.admin collector readings packet with
        | .ok handled => handled.sent
        | .error _ => none
  else if packet.getPacketId = packetIdBenchmarkRequest then
    handleBenchmarkRequest codec inputs packet
  else if packet.getPacketId = packetIdEchoRequest then handleEchoRequest codec inputs packet
  else none

inductive Answers (codec : Codec) (request : Packet) : Message → Prop where
  /-- The header, the client's own timestamp, the sequence and the payload come back. -/
  | benchmark {parsed : BenchmarkRequest} {recvNs sendNs : UInt64}
      (hid : request.getPacketId = packetIdBenchmarkRequest)
      (hparsed : codec.benchmarkRequest request.payload = some parsed) :
      Answers codec request ⟨packetIdBenchmarkResponse, codec.benchmarkResponse
        ⟨parsed.header, resultCodeOk, parsed.clientTimestampNs, recvNs, sendNs, parsed.sequence,
          parsed.payload⟩⟩
  /-- The text comes back under the id of the request, with the next request id. -/
  | echo {parsed : EchoRequest} {timeS : UInt64}
      (hid : request.getPacketId = packetIdEchoRequest)
      (hparsed : codec.echoRequest request.payload = some parsed) :
      Answers codec request ⟨packetIdEchoRequest, codec.echoResponse
        ⟨⟨parsed.header.requestId + 1, timeS⟩, resultCodeOk, parsed.dataStr⟩⟩
  | summary {header : Header} {summary : SummaryData}
      (hid : request.getPacketId = kPacketId_SummaryRequest)
      (hparsed : codec.admin.summaryRequest request.payload = some header) :
      Answers codec request ⟨kPacketId_SummaryResponse, (summaryResponse header summary).serialize⟩
  | sessionList {parsed : AdminSessionListRequest} {listData : SessionListData}
      (hid : request.getPacketId = kPacketId_SessionListReq)
      (hparsed : codec.admin.sessionListRequest request.payload = some parsed) :
      Answers codec request
        ⟨kPacketId_SessionListRes, (sessionListResponse parsed listData).serialize⟩

structure Unanswerable (codec : Codec) (request : Packet) : Prop where
  benchmark : request.getPacketId = packetIdBenchmarkRequest →
    codec.benchmarkRequest request.payload = none
  echo : request.getPacketId = packetIdEchoRequest → codec.echoRequest request.payload = none

def Answered (codec : Codec) (request : Packet) : Option Message → Prop
  | some m => Answers codec request m
  | none => Unanswerable codec request

variable {codec} {packet}

theorem unanswerable_of_admin (h : isAdminPacketId packet.getPacketId = true) :
    Unanswerable codec packet where
  benchmark hid := by
    rw [hid] at h
    exact absurd h (by decide)
  echo hid := by
    rw [hid] at h
    exact absurd h (by decide)

theorem answered_of_handlePacket {collector : ServerStatsCollector} {readings : Readings}
    {handled : Handled} (hadmin : isAdminPacketId packet.getPacketId = true)
    (h : handlePacket codec.admin collector readings packet = .ok handled) :
    Answered codec packet handled.sent := by
  have hnone : Unanswerable codec packet := unanswerable_of_admin hadmin
  simp only [handlePacket, hadmin, Bool.not_true, Bool.false_eq_true, if_false] at h
  split at h
  · rename_i hid
    cases hsent : handleSummaryRequest collector readings
        (codec.admin.summaryRequest packet.payload) with
    | error fault =>
      rw [hsent] at h
      cases h
    | ok sent =>
      rw [hsent] at h
      cases h
      cases sent with
      | none => exact hnone
      | some m =>
        obtain ⟨header, summary, hparsed, rfl⟩ := handleSummaryRequest_eq hsent
        exact .summary hid hparsed
  · split at h
    · rename_i hid
      cases hparsed : codec.admin.sessionListRequest packet.payload with
      | none =>
        rw [hparsed] at h
        cases h
        exact hnone
      | some parsed =>
        rw [hparsed] at h
        simp only [handleSessionListRequest] at h
        split at h
        · cases h
        · cases h
          exact .sessionList hid hparsed
    · cases h
      exact hnone

theorem answered : Answered codec packet (onPacketReceived codec inputs packet) := by
  unfold onPacketReceived
  split
  · rename_i hadmin
    split
    · exact unanswerable_of_admin hadmin
    · rename_i collector readings _
      cases hhandled : handlePacket codec.admin collector readings packet with
      | error fault => exact unanswerable_of_admin hadmin
      | ok handled => exact answered_of_handlePacket hadmin hhandled
  · split
    · rename_i hid
      unfold handleBenchmarkRequest
      cases hparsed : codec.benchmarkRequest packet.payload with
      | none =>
        refine ⟨fun _ => hparsed, fun hecho => ?_⟩
        rw [hid] at hecho
        exact absurd hecho (by decide)
      | some parsed => exact .benchmark hid hparsed
    · rename_i hbenchmark
      split
      · rename_i hid
        unfold handleEchoRequest
        cases hparsed : codec.echoRequest packet.payload with
        | none => exact ⟨fun h => absurd h hbenchmark, fun _ => hparsed⟩
        | some parsed =>
          rw [Option.map_some, hid]
          exact .echo hid hparsed
      · rename_i hecho
        exact ⟨fun h => absurd h hbenchmark, fun h => absurd h hecho⟩

end FastPort.Services.Inbound
