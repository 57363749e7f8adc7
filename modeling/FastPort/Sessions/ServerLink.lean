import FastPort.Sessions.RIOServer

/-! A client at one end of a TCP connection and the RIO server at the other. From the
`SendMessage` of the client through both framers, the handlers and back: the replies come
in the order of the requests, and each is a reply to its request. -/
namespace FastPort.Sessions

open FastPort.Commons FastPort.Core FastPort.Foundation.Connection FastPort.Foundation.Feed
open FastPort.Foundation.Hook FastPort.Foundation.Refinement FastPort.Foundation.Stack
open FastPort.Foundation.Transition FastPort.Foundation.Transition.System FastPort.Services
open FastPort.Sessions.Rio.Server

variable (codec : Inbound.Codec)

def serverPeer : Peer Rio.Server.Shared (List Rio.Server.Frame) Rio.Server.Choice
    Rio.Server.Event Byte :=
  (handlers codec).simulation.peer Rio.Duplex.peer rfl

def serverLink : System (Ends World Rio.Server.World Byte) (Label ⊕ Rio.Server.Label) :=
  connection peer (serverPeer codec)

structure RepliesAll (requests : List Packet) (answers : Answers) (replies : List Packet) : Prop
    where
  handled : answers.map Prod.fst = requests
  replied : replies = (sent answers).map Message.packet
  answered : ∀ a ∈ answers, Inbound.Answered codec a.1 a.2

variable {codec} {l : Ends World Rio.Server.World Byte}

theorem reach_serverSession {stream : List Byte}
    {ok : Fed Rio.Server.World Byte → Rio.Server.Label → Prop}
    {ok' : Fed Rio.Duplex.World Byte → Rio.Duplex.Label → Prop}
    (hok : ∀ w l l', (handlers codec).simulation.Follows l l' → ok w l →
      ok' ((handlers codec).simulation.fed w) l')
    {w : Fed Rio.Server.World Byte}
    (hw : (fed (serverPeer codec).machine (serverPeer codec).brings stream).Reach ok w) :
    (Rio.Duplex.fedSession stream).Reach ok' ((handlers codec).simulation.fed w) :=
  Simulation.reach_fed (fun _ => rfl) hok hw

theorem quiet_of_session {w : Rio.Server.World} (h : (w.session codec).Quiet) :
    ∀ stack ∈ w.threads, stack = [] := by
  intro stack hstack
  exact List.map_eq_nil_iff.mp (h _ (List.mem_map_of_mem hstack))

/-- At rest the server has answered every request, and every answer has been delivered. -/
theorem server_replies_all
    (hl : (serverLink codec).Reach
      (either attentive fun w => Rio.Server.takesSends w.state) l)
    (hrequests : SizesFit l.left.state.shared.accepted)
    (hanswers : SizesFit l.right.state.shared.1.accepted)
    (hclient : Spent l.left.state) (hserver : Rio.Duplex.Spent (l.right.state.session codec))
    (htaken : l.right.taken = l.left.state.shared.transferred)
    (hcaught : Caught l.right.state.shared.1.transferred l.right.state.shared.1.accepted
      l.left) :
    ∃ answers, RepliesAll codec (l.left.state.shared.accepted.map Message.packet) answers
      (packets l.left.state.shared.log) := by
  obtain ⟨hleft, hright⟩ := reach_ends hl
  have hreach : (Rio.Server.system codec).Reach Rio.Server.takesSends l.right.state :=
    reach_state (fun _ _ hok => hok) hright
  have hsession : (Rio.Duplex.fedSession l.left.state.shared.transferred).Reach
      (fun w => Rio.Duplex.takesSends w.state) ((handlers codec).simulation.fed l.right) :=
    reach_serverSession (fun _ _ _ hfollows hok => takesSends_session hok hfollows) hright
  have htakes : Rio.Duplex.system.Reach Rio.Duplex.takesSends (l.right.state.session codec) :=
    reach_state (fun _ _ hok => hok) hsession
  have hidle := idle_of_quiet hreach (quiet_of_session hserver.quiet)
  refine ⟨l.right.state.shared.2, ?_, ?_, answered hreach⟩
  · have hall := transferred_all (reach_state (fun _ _ hok => hok.1.2) hleft)
      (reach_state (fun _ _ hok => hok.2) hleft) hclient
    have hdelivered :=
      ((Rio.Duplex.staged (reach_session hreach)).idle (hserver.quiet.weigh _)).delivered.log
    have harrived : (l.right.state.session codec).shared.arrived = l.right.taken :=
      Rio.Duplex.arrived_eq hsession
    rw [harrived, htaken, hall] at hdelivered
    exact (hidle.delivered.symm.trans hdelivered).trans (decoded_encodings hrequests)
  · have hall : l.right.state.shared.1.transferred =
        encodings l.right.state.shared.1.accepted :=
      Rio.Duplex.transferred_all htakes hserver
    have hreceiver : (fedSession l.right.state.shared.1.transferred).Reach
        WellBehaved.keepsOrder l.left := hleft.mono fun _ _ hok => hok.1.1
    rw [hall] at hreceiver hcaught
    have haccepted : l.right.state.shared.1.accepted = sent l.right.state.shared.2 :=
      hidle.passed.all hserver.connected
    exact haccepted ▸ delivered_all hreceiver hanswers hcaught

/-- What the generated classes make of an empty request, and of the answer to it while the
clocks read 0. -/
def emptyRequests : Inbound.Codec where
  admin := ⟨fun _ => none, fun _ => none⟩
  benchmarkRequest bytes := if bytes = [] then some {} else none
  benchmarkResponse r := [10, 0, 16, UInt8.ofNat r.result]
  echoRequest bytes := if bytes = [] then some {} else none
  echoResponse r := [10, 2, 8, r.header.requestId.toUInt8, 16, UInt8.ofNat r.result]

def Ends.freshServer : Ends World Rio.Server.World Byte :=
  ⟨Ends.freshRio.left, ⟨⟨(Ends.freshRio.right.state.shared, []), []⟩, []⟩⟩

theorem Ends.reach_freshServer
    {ok : Ends World Rio.Server.World Byte → Label ⊕ Rio.Server.Label → Prop} :
    (serverLink codec).Reach ok Ends.freshServer :=
  .init ⟨⟨⟨⟨_, _, _, rfl, rfl, rfl⟩, rfl⟩, rfl⟩,
    ⟨⟨⟨⟨_, _, _, _, List.length_replicate, List.length_replicate, rfl⟩, rfl⟩, rfl⟩, rfl⟩⟩

def serverRuns (tid n : Nat) : List (Label ⊕ Rio.Server.Label) :=
  List.replicate n (.inr (.run tid ⟨true, 0, 0, 0, none⟩))

/-- The client sends an empty echo request, and takes the answer off the wire. -/
def echoRun : List (Label ⊕ Rio.Server.Label) :=
  .inl (.spawn (.call .startReceiveLoop)) :: (Label.goes 0 7).map .inl ++
    .inl (.spawn (.call (.sendMessage ⟨1, []⟩))) :: (Label.goes 1 11).map .inl ++
    .inr (.spawn .startReceiveLoop) :: serverRuns 0 3 ++
    .inl (.spawn (.sendCompletion 0 true 4)) :: (Label.goes 2 8).map .inl ++
    .inr (.spawn (.recvCompletion 0 true [0, 4, 0, 1])) :: serverRuns 1 14 ++
    .inr (.spawn (.sendCompletion 0 true 10)) :: serverRuns 2 3 ++
    .inl (.spawn (.recvCompletion 0 true [])) :: (Label.goes 3 5).map .inl ++
    .inl (.spawn (.recvCompletion 0 true [0, 10, 0, 1, 10, 2, 8, 1, 16, 1])) ::
      (Label.goes 4 21).map .inl

theorem server_replies_all_of_echo :
    ∃ l, (serverLink emptyRequests).runUnder
        (either attentive fun w => Rio.Server.takesSends w.state) Ends.freshServer echoRun =
        some l ∧
      ∃ answers, RepliesAll emptyRequests [Packet.create 1 []] answers
        (packets l.left.state.shared.log) := by
  obtain ⟨l, hrun, hat⟩ := exists_of_runUnder (serverLink emptyRequests)
    (either attentive fun w => Rio.Server.takesSends w.state) Ends.freshServer echoRun
    (fun l => decide (Spent l.left.state ∧
      Rio.Duplex.Spent (l.right.state.session emptyRequests) ∧
      l.right.taken = l.left.state.shared.transferred ∧
      Caught l.right.state.shared.1.transferred l.right.state.shared.1.accepted l.left ∧
      l.left.state.shared.accepted = [⟨1, []⟩] ∧
      l.right.state.shared.1.accepted = [⟨1, [10, 2, 8, 1, 16, 1]⟩])) (by decide)
  obtain ⟨hclient, hserver, htaken, hcaught, hrequests, hanswers⟩ := of_decide_eq_true hat
  have hreplies := server_replies_all (Ends.reach_freshServer.of_runUnder hrun)
    (by rw [hrequests]; simp [SizesFit]) (by rw [hanswers]; simp [SizesFit]) hclient hserver
    htaken hcaught
  rw [hrequests] at hreplies
  exact ⟨l, hrun, hreplies⟩

end FastPort.Sessions
