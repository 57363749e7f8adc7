import FastPort.Sessions.Agreement
import FastPort.Sessions.Link
import FastPort.Sessions.RIOWakeup

/-! An `IOSession` at one end of a TCP connection and a `RIOSession` at the other, as a
client and the RIO server have it. The two kinds of session share no code on their paths,
but each delivers what the other has accepted. -/
namespace FastPort.Sessions

open FastPort.Commons FastPort.Core FastPort.Core.PacketFramer FastPort.Foundation.Connection
open FastPort.Foundation.Feed FastPort.Foundation.Framing FastPort.Foundation.Pool
open FastPort.Foundation.Stack FastPort.Foundation.Tally FastPort.Foundation.Transition
open FastPort.Foundation.Transition.System

namespace Rio.Duplex

variable {ok : World → Label → Prop} {w : World}

theorem Stage.delivered {s : Shared} {f : Frame} (h : Stage s f) (hf : 0 < f.arm) :
    packets s.log <+: Delivery.decoded s.arrived := by
  have hreading : ∀ held, Reading s held → packets s.log <+: Delivery.decoded s.arrived := by
    intro held h
    unfold Delivery.decoded
    rw [← h.log, List.append_assoc]
    exact List.prefix_append _ _
  have harriving : ∀ n, Arriving s n → packets s.log <+: Delivery.decoded s.arrived := by
    intro n h
    rw [h.delivered.log]
    exact Delivery.decoded_front (List.take_prefix _ _)
  have hall : Delivered s s.arrived → packets s.log <+: Delivery.decoded s.arrived := by
    intro h
    rw [h.log]
    exact List.prefix_refl _
  unfold Stage at h
  split at h
  · exact hall h
  · exact hall h
  · exact hall h
  · exact harriving _ h
  · exact harriving _ h
  · exact hreading _ h
  · exact hreading _ h
  · exact hreading _ h
  · cases f <;> simp_all [Frame.arm]

theorem delivered_front (hw : system.Reach ok w) :
    packets w.shared.log <+: Delivery.decoded w.shared.arrived := by
  have hstaged := staged hw
  rcases Nat.eq_zero_or_pos (w.weigh Frame.arm) with hnone | hsome
  · rw [(hstaged.idle hnone).delivered.log]
    exact List.prefix_refl _
  · by_contra hprefix
    have hzero : w.weigh Frame.arm = 0 := by
      apply Stacks.weigh_eq_zero.mpr
      intro stack hstack f hf
      by_contra harm
      have hpos := Nat.pos_of_ne_zero harm
      exact hprefix ((hstaged.stage stack hstack f hf hpos).delivered hpos)
    omega

theorem transferred_front (hw : system.Reach ok w) :
    w.shared.transferred <+: encodings w.shared.accepted := by
  have h := streaming hw
  rw [h.transferred, ← h.stream, List.append_assoc, List.prefix_append_right_inj]
  exact (List.take_prefix _ _).trans (List.prefix_append _ _)

def World.Quiet (w : World) : Prop :=
  ∀ stack ∈ w.threads, stack = []

instance (w : World) : Decidable w.Quiet :=
  inferInstanceAs (Decidable (∀ stack ∈ w.threads, stack = []))

theorem World.Quiet.weigh (h : w.Quiet) (weight : Frame → Nat) :
    Stacks.weigh w weight = 0 := by
  apply Stacks.weigh_eq_zero.mpr
  intro stack hstack f hf
  rw [h stack hstack] at hf
  cases hf

structure Spent (w : World) : Prop where
  quiet : w.Quiet
  connected : w.shared.isDisconnected = false
  unposted : w.shared.rioSends = []
  slice : 0 < w.shared.sendSlice.length

instance (w : World) : Decidable (Spent w) :=
  decidable_of_iff (w.Quiet ∧ w.shared.isDisconnected = false ∧ w.shared.rioSends = [] ∧
      0 < w.shared.sendSlice.length)
    ⟨fun ⟨hquiet, hdisc, hnone, hslice⟩ => ⟨hquiet, hdisc, hnone, hslice⟩,
      fun h => ⟨h.quiet, h.connected, h.unposted, h.slice⟩⟩

theorem transferred_all (hw : system.Reach takesSends w) (hspent : Spent w) :
    w.shared.transferred = encodings w.shared.accepted := by
  have hattended := attended hw hspent.slice
  have h := streaming hw
  simp only [World.weighSent, hspent.quiet.weigh] at h hattended
  have hfree : w.shared.sendInProgress = false := by
    by_contra hbusy
    have hpos := hattended.owned hspent.connected (by simpa using hbusy)
    rw [hspent.unposted] at hpos
    cases hpos
  obtain ⟨hempty, hqueue⟩ :=
    (hattended.seen hspent.connected hfree).resolve_right (Nat.lt_irrefl 0)
  have hcontent : w.shared.sendBuffer.content = [] :=
    List.length_eq_zero_iff.mp (RingBuffer.length_content.trans hempty)
  have hstream := h.stream
  rw [hcontent, hqueue, remainders_nil, List.append_nil, List.append_nil] at hstream
  rw [h.transferred, hcontent, List.take_nil, List.append_nil, hstream]

/-- A `RIOSession` as one end of a connection. -/
def peer : Peer Shared (List Frame) Choice Event Byte where
  machine := program.machine
  brings := Event.brings
  puts s := s.transferred
  grows := by
    intro w l w' hstep
    cases Machine.moved_of_step hstep with
    | @run tid choice stack _ _ hthread hrun =>
      cases stack with
      | nil => cases hrun
      | cons f rest =>
        cases hrun
        by_cases hf : ∃ g, f = .send g
        · obtain ⟨g, rfl⟩ := hf
          have hshared := (Frame.exec_send choice w.shared g).1
          have htransferred := (exec_sendSlice choice.accepted w.shared.toShared g).2
          rw [← hshared] at htransferred
          simp only [program, htransferred]
          exact List.prefix_refl _
        · have hshared := (@Frame.exec_other choice w.shared _
            (fun g hg => hf ⟨g, hg⟩)).1
          simp only [program, hshared]
          exact List.prefix_refl _
    | spawn hspawn =>
      cases Shared.arrived_of_arrive hspawn with
      | @send _ sent shared t hsent =>
        cases sent with
        | sendMessage m =>
          cases hsent
          exact List.prefix_refl _
        | receiveFailed =>
          cases hsent
          exact List.prefix_refl _
        | sendCompletion index success n =>
          simp only [Rio.Shared.arrive] at hsent
          split at hsent
          · cases hsent
          · split at hsent
            · cases hsent
              exact List.prefix_append _ _
            · cases hsent
      | startReceiveLoop => exact List.prefix_refl _
      | recvCompletion => exact List.prefix_refl _

end Rio.Duplex

def rioLink : System (Ends World Rio.Duplex.World Byte) (Label ⊕ Rio.Duplex.Label) :=
  connection peer Rio.Duplex.peer

variable {l : Ends World Rio.Duplex.World Byte}

/-- In every run of the two ends, each delivers the front of what the other has accepted.
The `RIOSession` keeps to no condition at all. -/
theorem rio_link_in_order (hl : rioLink.Reach (either orderly free) l) :
    (SizesFit l.left.state.shared.accepted →
      Rio.Duplex.packets l.right.state.shared.log <+:
        l.left.state.shared.accepted.map Message.packet) ∧
    (SizesFit l.right.state.shared.accepted →
      packets l.left.state.shared.log <+:
        l.right.state.shared.accepted.map Message.packet) := by
  obtain ⟨hleft, hright⟩ := reach_ends hl
  have hclient : system.Reach sendsDrained l.left.state :=
    reach_state (fun _ _ hok => hok.2) hleft
  have hserver : Rio.Duplex.system.Reach free l.right.state :=
    reach_state (fun _ _ _ => trivial) hright
  constructor
  · intro hsizes
    rw [← decoded_encodings hsizes]
    refine (Rio.Duplex.delivered_front hserver).trans (Delivery.decoded_front ?_)
    rw [Rio.Duplex.arrived_eq hright]
    exact (taken_front hright).trans (transferred_front hclient)
  · intro hsizes
    rw [← decoded_encodings hsizes]
    exact (Delivery.upheld (hleft.mono fun _ _ hok => hok.1)).delivered.trans
      (Delivery.decoded_front (Rio.Duplex.transferred_front hserver))

/-- At rest each end has delivered exactly what the other has accepted. The `RIOSession`
need not be connected to have delivered it. -/
theorem rio_link_complete
    (hl : rioLink.Reach (either attentive fun w => Rio.Duplex.takesSends w.state) l) :
    (SizesFit l.left.state.shared.accepted → Spent l.left.state → l.right.state.Quiet →
      l.right.taken = l.left.state.shared.transferred →
      Rio.Duplex.packets l.right.state.shared.log =
        l.left.state.shared.accepted.map Message.packet) ∧
    (SizesFit l.right.state.shared.accepted → Rio.Duplex.Spent l.right.state →
      Caught l.right.state.shared.transferred l.right.state.shared.accepted l.left →
      packets l.left.state.shared.log =
        l.right.state.shared.accepted.map Message.packet) := by
  obtain ⟨hleft, hright⟩ := reach_ends hl
  have hserver : Rio.Duplex.system.Reach Rio.Duplex.takesSends l.right.state :=
    reach_state (fun _ _ hok => hok) hright
  constructor
  · intro hsizes hspent hquiet htaken
    have hall := transferred_all (reach_state (fun _ _ hok => hok.1.2) hleft)
      (reach_state (fun _ _ hok => hok.2) hleft) hspent
    have hdelivered := ((Rio.Duplex.staged hserver).idle (hquiet.weigh _)).delivered.log
    rw [hdelivered, Rio.Duplex.arrived_eq hright, htaken, hall]
    exact decoded_encodings hsizes
  · intro hsizes hspent hcaught
    have hall := Rio.Duplex.transferred_all hserver hspent
    have hreceiver : (fedSession l.right.state.shared.transferred).Reach
        WellBehaved.keepsOrder l.left := hleft.mono fun _ _ hok => hok.1.1
    rw [hall] at hreceiver hcaught
    exact delivered_all hreceiver hsizes hcaught

def Ends.freshRio : Ends World Rio.Duplex.World Byte :=
  ⟨⟨World.fresh 16 16, []⟩, ⟨Rio.Duplex.World.fresh 16 16 (by decide) (by decide), []⟩⟩

theorem Ends.reach_freshRio
    {ok : Ends World Rio.Duplex.World Byte → Label ⊕ Rio.Duplex.Label → Prop} :
    rioLink.Reach ok Ends.freshRio :=
  .init ⟨⟨⟨⟨_, _, _, rfl, rfl, rfl⟩, rfl⟩, rfl⟩,
    ⟨⟨⟨_, _, _, _, List.length_replicate, List.length_replicate, rfl⟩, rfl⟩, rfl⟩⟩

/-- The client sends a message, and the server answers it from `OnPacketReceived`. -/
def answeringRun : List (Label ⊕ Rio.Duplex.Label) :=
  .inl (.spawn (.call .startReceiveLoop)) :: (Label.goes 0 7).map .inl ++
    .inl (.spawn (.call (.sendMessage ⟨1, [7]⟩))) :: (Label.goes 1 11).map .inl ++
    .inr (.spawn .startReceiveLoop) :: List.replicate 3 (.inr (.run 0 ⟨true, none⟩)) ++
    .inl (.spawn (.sendCompletion 0 true 5)) :: (Label.goes 2 8).map .inl ++
    .inr (.spawn (.recvCompletion 0 true [0, 5, 0, 1, 7])) ::
      List.replicate 5 (.inr (.run 1 ⟨true, none⟩)) ++
    .inr (.run 1 ⟨true, some ⟨2, [9]⟩⟩) :: List.replicate 8 (.inr (.run 1 ⟨true, none⟩)) ++
    .inr (.spawn (.sendCompletion 0 true 5)) :: List.replicate 3 (.inr (.run 2 ⟨true, none⟩)) ++
    .inl (.spawn (.recvCompletion 0 true [])) :: (Label.goes 3 5).map .inl ++
    .inl (.spawn (.recvCompletion 0 true [0, 5, 0, 2, 9])) :: (Label.goes 4 21).map .inl

theorem rio_link_in_order_of_answer :
    ∃ l, rioLink.runUnder (either orderly free) Ends.freshRio answeringRun = some l ∧
      (packets l.left.state.shared.log).length = 1 ∧
      packets l.left.state.shared.log <+: [Packet.create 2 [9]] := by
  obtain ⟨l, hrun, hat⟩ := exists_of_runUnder rioLink (either orderly free) Ends.freshRio
    answeringRun (fun l => decide ((packets l.left.state.shared.log).length = 1 ∧
      l.right.state.shared.accepted = [⟨2, [9]⟩])) (by decide)
  obtain ⟨hone, haccepted⟩ := of_decide_eq_true hat
  have hfront := (rio_link_in_order (Ends.reach_freshRio.of_runUnder hrun)).2 (by
    rw [haccepted]
    simp [SizesFit])
  rw [haccepted] at hfront
  exact ⟨l, hrun, hone, hfront⟩

theorem rio_link_complete_of_answer :
    ∃ l, rioLink.runUnder (either attentive fun w => Rio.Duplex.takesSends w.state)
        Ends.freshRio answeringRun = some l ∧
      Rio.Duplex.packets l.right.state.shared.log = [Packet.create 1 [7]] ∧
      packets l.left.state.shared.log = [Packet.create 2 [9]] := by
  obtain ⟨l, hrun, hat⟩ := exists_of_runUnder rioLink
    (either attentive fun w => Rio.Duplex.takesSends w.state) Ends.freshRio answeringRun
    (fun l => decide (Spent l.left.state ∧ l.right.state.Quiet ∧
      l.right.taken = l.left.state.shared.transferred ∧ Rio.Duplex.Spent l.right.state ∧
      Caught l.right.state.shared.transferred l.right.state.shared.accepted l.left ∧
      l.left.state.shared.accepted = [⟨1, [7]⟩] ∧ l.right.state.shared.accepted = [⟨2, [9]⟩]))
    (by decide)
  obtain ⟨hspent, hquiet, htaken, hspent', hcaught, hleft, hright⟩ := of_decide_eq_true hat
  obtain ⟨hserver, hclient⟩ := rio_link_complete (Ends.reach_freshRio.of_runUnder hrun)
  rw [hleft] at hserver
  rw [hright] at hclient hcaught
  exact ⟨l, hrun, hserver (by simp [SizesFit]) hspent hquiet htaken,
    hclient (by simp [SizesFit]) hspent' hcaught⟩

end FastPort.Sessions
