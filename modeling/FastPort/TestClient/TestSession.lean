import FastPort.Services.AdminProto
import FastPort.Sessions.Link

/-! The admin channel from end to end: the requests of a `TestSession`, what the server
makes of them, and the callbacks that the answers lead to. -/
namespace FastPort.TestClient

open FastPort.Commons FastPort.Core FastPort.Foundation.ProtoWire FastPort.Services.Admin
open FastPort.Services.Stats FastPort.Sessions FastPort.Sessions.Delivery

/-- The id of the next request, and which of the two callbacks are set. -/
structure TestSession where
  nextRequestId : UInt32
  hasAdminSummaryCb : Bool
  hasAdminSessionListCb : Bool
deriving DecidableEq, Repr

/-- A call of `m_AdminSummaryCb` or of `m_AdminSessionListCb`. -/
inductive AdminCall where
  | adminSummaryCb (response : AdminStatusSummaryResponse)
  | adminSessionListCb (response : AdminSessionListResponse)
deriving DecidableEq, Repr

inductive AdminRequest where
  | summary
  | sessionList (offset limit : UInt32)
deriving DecidableEq, Repr

/-- A request, the client's clock as it is sent, and what the server's collector reads as it
is handled. -/
structure Exchange where
  request : AdminRequest
  nowMs : Int64
  readings : Readings

namespace TestSession

def header (session : TestSession) (nowMs : Int64) : Header :=
  ⟨session.nextRequestId.toUInt64, nowMs.toUInt64⟩

def sendAdminSummaryRequest (session : TestSession) (nowMs : Int64) : TestSession × Message :=
  ({ session with nextRequestId := session.nextRequestId + 1 },
    ⟨0x8001, serializeSummaryRequest (session.header nowMs)⟩)

def sendAdminSessionListRequest (session : TestSession) (nowMs : Int64)
    (offset limit : UInt32) : TestSession × Message :=
  ({ session with nextRequestId := session.nextRequestId + 1 },
    ⟨0x8003, AdminSessionListRequest.serialize ⟨session.header nowMs, offset, limit⟩⟩)

def sendAdminRequest (session : TestSession) (nowMs : Int64) :
    AdminRequest → TestSession × Message
  | .summary => session.sendAdminSummaryRequest nowMs
  | .sessionList offset limit => session.sendAdminSessionListRequest nowMs offset limit

/-- The admin part of `OnPacketReceived`: packets of other ids are no admin responses. -/
def onPacketReceived (session : TestSession) (packet : Packet) : Option AdminCall :=
  if packet.getPacketId = 0x8002 then
    match merge AdminStatusSummaryResponse.mergeField .default packet.payload with
    | some response =>
        if session.hasAdminSummaryCb then some (.adminSummaryCb response) else none
    | none => none
  else if packet.getPacketId = 0x8004 then
    match merge AdminSessionListResponse.mergeField .default packet.payload with
    | some response =>
        if session.hasAdminSessionListCb then some (.adminSessionListCb response) else none
    | none => none
  else none

def sendAll (session : TestSession) : List Exchange → List Message
  | [] => []
  | e :: exchanges =>
      (session.sendAdminRequest e.nowMs e.request).2 ::
        (session.sendAdminRequest e.nowMs e.request).1.sendAll exchanges

/-- What `HandlePacket` sends for a packet. -/
def answer (collector : ServerStatsCollector) (packet : Packet) (readings : Readings) :
    Option Message :=
  match handlePacket protoParsers collector readings packet with
  | .ok handled => handled.sent
  | .error _ => none

/-- What the server sends for the packets in the client's stream. -/
def answers (session : TestSession) (collector : ServerStatsCollector)
    (exchanges : List Exchange) : List Message :=
  (List.zipWith (answer collector) (decoded (encodings (session.sendAll exchanges)))
    (exchanges.map Exchange.readings)).reduceOption

/-- The call that a request is to lead to. -/
def due (header : Header) (collector : ServerStatsCollector) (readings : Readings) :
    AdminRequest → Option AdminCall
  | .summary => (snapshotSummary collector readings).toOption.map fun summary =>
      .adminSummaryCb (summaryResponse header summary)
  | .sessionList offset limit =>
      (snapshotSessions readings.sessionProvider offset limit).toOption.map fun listData =>
        .adminSessionListCb (sessionListResponse ⟨header, offset, limit⟩ listData)

/-- The calls that the requests are to lead to, in this order. -/
def dueAll (session : TestSession) (collector : ServerStatsCollector) :
    List Exchange → List (Option AdminCall)
  | [] => []
  | e :: exchanges =>
      due (session.header e.nowMs) collector e.readings e.request ::
        (session.sendAdminRequest e.nowMs e.request).1.dueAll collector exchanges

/-- The pages that are asked for fit into the client's receive ring. -/
def PagesFit (session : TestSession) : List Exchange → Prop
  | [] => True
  | e :: exchanges =>
      (∀ offset limit, e.request = .sessionList offset limit →
        FitsClient e.readings.sessionProvider ⟨session.header e.nowMs, offset, limit⟩) ∧
      (session.sendAdminRequest e.nowMs e.request).1.PagesFit exchanges

structure Listening (session : TestSession) : Prop where
  summary : session.hasAdminSummaryCb = true
  sessionList : session.hasAdminSessionListCb = true

variable {session receiver : TestSession} {collector : ServerStatsCollector} {e : Exchange}
variable {exchanges : List Exchange}

theorem onPacketReceived_summary (hset : receiver.Listening) (header : Header)
    (summary : SummaryData) :
    receiver.onPacketReceived (Message.packet ⟨kPacketId_SummaryResponse,
      (summaryResponse header summary).serialize⟩) =
        some (.adminSummaryCb (summaryResponse header summary)) := by
  have hparse := merge_summaryResponse (summaryResponse header summary) rfl
  simp [onPacketReceived, Message.packet, kPacketId_SummaryResponse, hparse, hset.summary]

theorem onPacketReceived_sessionList (hset : receiver.Listening)
    (request : AdminSessionListRequest) (listData : SessionListData) :
    receiver.onPacketReceived (Message.packet ⟨kPacketId_SessionListRes,
      (sessionListResponse request listData).serialize⟩) =
        some (.adminSessionListCb (sessionListResponse request listData)) := by
  have hparse := merge_sessionListResponse (sessionListResponse request listData) rfl
  simp [onPacketReceived, Message.packet, kPacketId_SessionListRes, hparse, hset.sessionList]

theorem exists_summary (collector : ServerStatsCollector)
    (hprovided : e.readings.sessionProvider ≠ some .foreignException) :
    ∃ summary, snapshotSummary collector e.readings = .ok summary := by
  unfold snapshotSummary
  rcases hprovider : e.readings.sessionProvider with _ | snapshot | _ | _
  · exact ⟨_, rfl⟩
  · exact ⟨_, rfl⟩
  · exact ⟨_, rfl⟩
  · exact absurd hprovider hprovided

theorem exists_listData (hprovided : e.readings.sessionProvider ≠ some .foreignException)
    (offset limit : UInt32) :
    ∃ listData, snapshotSessions e.readings.sessionProvider offset limit = .ok listData := by
  rcases hprovider : e.readings.sessionProvider with _ | snapshot | _ | _
  · exact ⟨_, snapshotSessions_eq [] offset limit⟩
  · exact ⟨_, snapshotSessions_eq snapshot offset limit⟩
  · exact ⟨_, rfl⟩
  · exact absurd hprovider hprovided

structure Answers (receiver : TestSession) (m : Message) (call : AdminCall) : Prop where
  deliverable : Deliverable m
  received : receiver.onPacketReceived m.packet = some call

theorem answers_summary (collector : ServerStatsCollector) (hset : receiver.Listening)
    {readings : Readings} {summary : SummaryData} {nowMs : Int64}
    (hsummary : snapshotSummary collector readings = .ok summary) :
    ∃ m, answer collector (session.sendAdminSummaryRequest nowMs).2.packet readings = some m ∧
      receiver.Answers m (.adminSummaryCb (summaryResponse (session.header nowMs) summary)) := by
  have hsent : handleSummaryRequest collector readings (some (session.header nowMs)) =
      .ok (some ⟨kPacketId_SummaryResponse,
        (summaryResponse (session.header nowMs) summary).serialize⟩) := by
    simp [handleSummaryRequest, hsummary]
  refine ⟨_, ?_, ?_, onPacketReceived_summary hset (session.header nowMs) summary⟩
  · rw [answer, handlePacket_summary
      (by simp [sendAdminSummaryRequest, Message.packet, kPacketId_SummaryRequest])]
    simp [sendAdminSummaryRequest, Message.packet, summaryRequest_serialize, hsent, Except.map]
  · have hsmall := totalSize_summary_le hsent
    exact ⟨hsmall.trans (by decide), hsmall.trans (by decide)⟩

theorem answers_sessionList (collector : ServerStatsCollector) (hset : receiver.Listening)
    {readings : Readings} {listData : SessionListData} {nowMs : Int64} {offset limit : UInt32}
    (hlist : snapshotSessions readings.sessionProvider offset limit = .ok listData)
    (hfits : FitsClient readings.sessionProvider ⟨session.header nowMs, offset, limit⟩) :
    ∃ m, answer collector (session.sendAdminSessionListRequest nowMs offset limit).2.packet
        readings = some m ∧
      receiver.Answers m (.adminSessionListCb
        (sessionListResponse ⟨session.header nowMs, offset, limit⟩ listData)) := by
  have hsent : handleSessionListRequest readings.sessionProvider
      (some ⟨session.header nowMs, offset, limit⟩) = .ok (some ⟨kPacketId_SessionListRes,
        (sessionListResponse ⟨session.header nowMs, offset, limit⟩ listData).serialize⟩) := by
    simp [handleSessionListRequest, hlist]
  refine ⟨_, ?_, ?_, onPacketReceived_sessionList hset
    ⟨session.header nowMs, offset, limit⟩ listData⟩
  · rw [answer, handlePacket_sessionList
      (by simp [sendAdminSessionListRequest, Message.packet, kPacketId_SessionListReq])]
    simp [sendAdminSessionListRequest, Message.packet, sessionListRequest_serialize, hsent,
      Except.map]
  · have hsize := totalSize_eq hsent
    unfold FitsClient at hfits
    have hle := hsize.trans_le hfits
    exact ⟨hle.trans (by decide), hle⟩

/-- Every request is answered, unless the provider throws what nobody catches. -/
theorem exists_answer (collector : ServerStatsCollector) (hset : receiver.Listening)
    (hprovided : e.readings.sessionProvider ≠ some .foreignException)
    (hfits : ∀ offset limit, e.request = .sessionList offset limit →
      FitsClient e.readings.sessionProvider ⟨session.header e.nowMs, offset, limit⟩) :
    ∃ m call, answer collector (session.sendAdminRequest e.nowMs e.request).2.packet e.readings =
        some m ∧
      due (session.header e.nowMs) collector e.readings e.request = some call ∧
      receiver.Answers m call := by
  obtain ⟨request, nowMs, readings⟩ := e
  cases request with
  | summary =>
    obtain ⟨summary, hsummary⟩ := exists_summary collector hprovided
    obtain ⟨m, hanswer, hm⟩ := answers_summary collector hset hsummary
    exact ⟨m, _, hanswer, by simp [due, hsummary, Except.toOption], hm⟩
  | sessionList offset limit =>
    obtain ⟨listData, hlist⟩ := exists_listData hprovided offset limit
    obtain ⟨m, hanswer, hm⟩ := answers_sessionList collector hset hlist (hfits offset limit rfl)
    exact ⟨m, _, hanswer, by simp [due, hlist, Except.toOption], hm⟩

theorem exists_answers (collector : ServerStatsCollector) (hset : receiver.Listening)
    (hprovided : ∀ e ∈ exchanges, e.readings.sessionProvider ≠ some .foreignException)
    (hfits : session.PagesFit exchanges) :
    ∃ messages calls, List.zipWith (answer collector)
        ((session.sendAll exchanges).map Message.packet) (exchanges.map Exchange.readings) =
        messages.map some ∧
      session.dueAll collector exchanges = calls.map some ∧
      List.Forall₂ receiver.Answers messages calls := by
  induction exchanges generalizing session with
  | nil => exact ⟨[], [], rfl, rfl, .nil⟩
  | cons e exchanges ih =>
    obtain ⟨m, call, hanswer, hdue, hm⟩ :=
      exists_answer collector hset (hprovided e List.mem_cons_self) hfits.1
    obtain ⟨messages, calls, hanswers, hdues, hall⟩ :=
      ih (fun e he => hprovided e (List.mem_cons_of_mem _ he)) hfits.2
    refine ⟨m :: messages, call :: calls, ?_, ?_, .cons hm hall⟩
    · simp only [sendAll, List.map_cons, List.zipWith_cons_cons, hanswer, hanswers]
    · simp only [dueAll, List.map_cons, hdue, hdues]

theorem length_header_body_le (header : Header) :
    (messageField 1 header.serialize).length ≤ 24 := by
  have hle := length_header_le header
  rw [length_messageField (by decide) (by omega)]
  omega

theorem sizesFit_sendAll (session : TestSession) (exchanges : List Exchange) :
    SizesFit (session.sendAll exchanges) := by
  induction exchanges generalizing session with
  | nil => simp [SizesFit, sendAll]
  | cons e exchanges ih =>
    refine List.forall_mem_cons.mpr ⟨?_, ih _⟩
    have hheader := length_header_body_le (session.header e.nowMs)
    cases e.request with
    | summary => exact hheader.trans (by decide)
    | sessionList offset limit =>
      have hoffset := fieldSize_le_of_uint32 offset
      have hlimit := fieldSize_le_of_uint32 limit
      simp only [sendAdminRequest, sendAdminSessionListRequest, AdminSessionListRequest.serialize,
        List.length_append, length_varintField (show 2 < 16 by decide),
        length_varintField (show 3 < 16 by decide)]
      omega

theorem sizesFit_of_deliverable {messages : List Message}
    (h : ∀ m ∈ messages, Deliverable m) : SizesFit messages := by
  intro m hm
  have hle := (h m hm).1
  simp only [Message.totalSize, getHeaderSize, getPacketIdSize] at hle
  omega

theorem received_of_answers {messages : List Message} {calls : List AdminCall}
    (h : List.Forall₂ receiver.Answers messages calls) :
    (∀ m ∈ messages, Deliverable m) ∧
      (messages.map Message.packet).map receiver.onPacketReceived = calls.map some := by
  induction h with
  | nil => simp
  | cons hm _ ih =>
    refine ⟨List.forall_mem_cons.mpr ⟨hm.deliverable, ih.1⟩, ?_⟩
    simp only [List.map_cons, hm.received, ih.2]

/-- Every admin request whose page fits is answered; the answers can be delivered, and lead,
in the order of the requests, to calls with what the collector made of its readings. -/
theorem admin_answers_reach_client (hset : session.Listening)
    (hprovided : ∀ e ∈ exchanges, e.readings.sessionProvider ≠ some .foreignException)
    (hfits : session.PagesFit exchanges) (collector : ServerStatsCollector) :
    (∀ m ∈ session.answers collector exchanges, Deliverable m) ∧
      (∀ call ∈ session.dueAll collector exchanges, call.isSome = true) ∧
      (decoded (encodings (session.answers collector exchanges))).map session.onPacketReceived =
        session.dueAll collector exchanges := by
  obtain ⟨messages, calls, hanswers, hdue, hall⟩ :=
    exists_answers collector hset hprovided hfits
  obtain ⟨hdeliverable, hreceived⟩ := received_of_answers hall
  have hsent : session.answers collector exchanges = messages := by
    rw [answers, decoded_encodings (sizesFit_sendAll session exchanges), hanswers]
    simp [List.reduceOption]
  rw [hsent, hdue, decoded_encodings (sizesFit_of_deliverable hdeliverable)]
  exact ⟨hdeliverable, by simp, hreceived⟩

/-- A poll of the admin panel, and a page of sessions. -/
def twoExchanges : List Exchange :=
  [⟨.summary, 5, twoSessions⟩, ⟨.sessionList 0 100, 6, twoSessions⟩]

theorem admin_answers_reach_client_of_two :
    ∃ calls : List (Option AdminCall), calls.length = 2 ∧ (∀ call ∈ calls, call.isSome = true) ∧
      (decoded (encodings (answers ⟨1, true, true⟩ ⟨.rio, 10⟩ twoExchanges))).map
        (onPacketReceived ⟨1, true, true⟩) = calls := by
  have hfits : PagesFit ⟨1, true, true⟩ twoExchanges := by
    refine ⟨fun offset limit h => (by cases h), fun offset limit h => ?_, trivial⟩
    cases h
    exact fitsClient_of_length_le (by decide)
  have hprovided : ∀ e ∈ twoExchanges, e.readings.sessionProvider ≠ some .foreignException := by
    simp [twoExchanges, twoSessions]
  obtain ⟨-, hsome, hcalls⟩ :=
    admin_answers_reach_client ⟨rfl, rfl⟩ hprovided hfits ⟨.rio, 10⟩
  exact ⟨_, rfl, hsome, hcalls⟩

end TestSession

end FastPort.TestClient
