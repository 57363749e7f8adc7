import FastPort.Foundation.Connection
import FastPort.Sessions.Delivery
import FastPort.Sessions.Wakeup

/-! Two `IOSession`s at the ends of one TCP connection, each with its own threads and its
own completions. Through both rings, both framers and every cut that the network makes,
one end delivers what the other one has accepted. -/
namespace FastPort.Sessions

open FastPort.Commons FastPort.Core FastPort.Core.PacketFramer FastPort.Foundation.Connection
open FastPort.Foundation.Feed FastPort.Foundation.Framing FastPort.Foundation.Pool
open FastPort.Foundation.Tally FastPort.Foundation.Transition
open FastPort.Foundation.Transition.System

/-- The ring is read only when it may be, and `OnDisconnected` fires only with no send
pending. -/
def sendsDrained (w : World) (l : Label) : Prop :=
  readsWritten w l ∧ (w.fires l = true → w.shared.sends = [])

instance (w : World) (l : Label) : Decidable (sendsDrained w l) :=
  inferInstanceAs (Decidable (_ ∧ (_ → _)))

/-- The condition on the steps of one end. -/
def orderly (w : Fed World Byte) (l : Label) : Prop :=
  WellBehaved.keepsOrder w l ∧ sendsDrained w.state l

instance (w : Fed World Byte) (l : Label) : Decidable (orderly w l) :=
  inferInstanceAs (Decidable (_ ∧ _))

section

variable {choice : Choice} {s s' : Shared} {f : Frame} {fs : List Frame}

theorem Frame.Steps.sends (h : f.Steps choice s s' fs) (hf : f.sendWindow = 0) :
    s'.sends = s.sends := by
  cases h
  all_goals simp_all [Frame.sendWindow]

theorem Frame.Steps.fires (h : f.Steps choice s s' fs) (hfired : s.onDisconnectedFired = false)
    (hfired' : s'.onDisconnectedFired = true) : s'.sends = s.sends := by
  cases h
  all_goals simp_all

end

variable {w : World}

theorem sends_eq_nil_of_fired (hw : system.Reach sendsDrained w) :
    w.shared.onDisconnectedFired = true → w.shared.sends = [] := by
  refine Machine.invariant (m := machine)
    (I := fun w => w.shared.onDisconnectedFired = true → w.shared.sends = []) ?_ ?_ ?_ hw
  · rintro s ⟨receiveBuffer, sendBuffer, socket, -, -, rfl⟩ hfired
    cases hfired
  · intro w tid choice t s' t' hreach ih hok hthread hrun hfired'
    cases Thread.ran_of_run hrun with
    | @exec f rest hframes =>
      have hstep := f.steps_exec choice w.shared
      cases hfired : w.shared.onDisconnectedFired with
      | true =>
        have hle : f.sendWindow ≤ World.weigh w Frame.sendWindow :=
          World.weight_le_weigh hthread hframes
        have hnone := sendWindow_eq_zero (hreach.mono fun _ _ h => h.1) hfired
        exact (hstep.sends (by omega)).trans (ih hfired)
      | false =>
        obtain ⟨rfl, -⟩ := hstep.firing_sendWindow hfired hfired'
        have hnone := hok.2 (by simp [World.fires, World.runs_eq hthread hframes, hfired])
        exact (hstep.fires hfired hfired').trans hnone
    | release hframes hguard => exact ih hfired'
  · intro w event s' t' _ ih _ hspawn hfired'
    cases Shared.arrived_of_arrive hspawn with
    | sendCompletion hpending hlength => simp [ih hfired'] at hpending
    | _ => exact ih hfired'

theorem transferred_front (hw : system.Reach sendsDrained w) :
    w.shared.transferred <+: encodings w.shared.accepted := by
  refine Machine.invariant (m := machine)
    (I := fun w => w.shared.transferred <+: encodings w.shared.accepted) ?_ ?_ ?_ hw
  · rintro s ⟨receiveBuffer, sendBuffer, socket, -, -, rfl⟩
    exact List.nil_prefix
  · intro w tid choice t s' t' _ ih _ _ hrun
    cases Thread.ran_of_run hrun with
    | @exec f rest hframes =>
      obtain ⟨⟨more, haccepted⟩, htransferred⟩ := (f.steps_exec choice w.shared).appends
      rw [haccepted, htransferred, encodings_append]
      exact ih.trans (List.prefix_append _ _)
    | release hframes hguard => exact ih
  · intro w event s' t' hreach ih hok hspawn
    have hnext := Machine.reach_spawn hreach hok hspawn
    cases hfired : w.shared.onDisconnectedFired with
    | true =>
      have hnone := sends_eq_nil_of_fired hreach hfired
      cases Shared.arrived_of_arrive hspawn with
      | sendCompletion hpending hlength => simp [hnone] at hpending
      | _ => exact ih
    | false =>
      have hfired' : s'.onDisconnectedFired = false := by
        cases Shared.arrived_of_arrive hspawn <;> exact hfired
      obtain ⟨-, consumed, n, hsending⟩ :=
        readingPhase_of_readsWritten.sending (hnext.mono fun _ _ h => h.1) hfired'
      exact hsending.sent

theorem wire_eq_encodings (sent : List Message) : wire sent = encodings sent := by
  unfold wire encodings
  refine congrArg List.flatten (List.map_congr_left fun m _ => ?_)
  exact m.encode_eq.symm

/-- The size fields of the messages can hold their sizes. -/
def SizesFit (messages : List Message) : Prop :=
  ∀ m ∈ messages, m.body.length ≤ 65531

theorem decoded_encodings {messages : List Message} (h : SizesFit messages) :
    Delivery.decoded (encodings messages) = messages.map Message.packet := by
  have hframes : ∀ f ∈ messages.map (fun m => m.packet.rawBinaries),
      decoder.next f = .frame f.length := by
    intro f hf
    obtain ⟨m, hm, rfl⟩ := List.mem_map.mp hf
    exact nextFrame_makeRawBinaries m.packetId (by have := h m hm; omega)
  have hdrain := Decoder.drain_flatten_append hframes (show decoder.next [] = .needMore from rfl)
  rw [List.append_nil] at hdrain
  rw [← wire_eq_encodings, wire, Delivery.decoded, hdrain, List.map_map]
  apply List.map_congr_left
  intro m _
  exact Packet.ofRaw_makeRawBinaries m.packetId m.body

/-- An `IOSession` as one end of a connection. -/
def peer : Peer Shared Thread Choice Event Byte where
  machine := machine
  brings := Event.brings
  puts s := s.transferred
  grows := by
    intro w l w' hstep
    cases Machine.moved_of_step hstep with
    | @run tid choice _ _ _ hthread hrun =>
      cases Thread.ran_of_run hrun with
      | @exec f rest hframes =>
        have hsame := (f.steps_exec choice w.shared).appends.2
        exact hsame ▸ List.prefix_refl w.shared.transferred
      | release hframes hguard => exact List.prefix_refl _
    | spawn hspawn =>
      cases Shared.arrived_of_arrive hspawn with
      | sendCompletion => exact List.prefix_append _ _
      | _ => exact List.prefix_refl _

def link : System (Ends World World Byte) (Label ⊕ Label) :=
  connection peer peer

/-- What one end delivers is the front of what the other has accepted. -/
structure InOrder (sender receiver : World) : Prop where
  delivered : packets receiver.shared.log <+: sender.shared.accepted.map Message.packet

/-- The session is connected and at rest, and has no send pending. -/
structure Spent (w : World) : Prop where
  quiet : w.Quiet
  connected : w.shared.disconnectRequested = false
  unposted : w.shared.sends = []

/-- The session is connected and at rest, has taken the stream to its end, and has a ring
that each of the messages fits into. -/
structure Caught (stream : List Byte) (messages : List Message) (w : Fed World Byte) : Prop where
  quiet : w.state.Quiet
  connected : w.state.shared.disconnectRequested = false
  taken : w.taken = stream
  fits : ∀ m ∈ messages, m.encode.length ≤ w.state.shared.receiveBuffer.capacity

instance (w : World) : Decidable (Spent w) :=
  decidable_of_iff (w.Quiet ∧ w.shared.disconnectRequested = false ∧ w.shared.sends = [])
    ⟨fun ⟨hquiet, hdisc, hnone⟩ => ⟨hquiet, hdisc, hnone⟩,
      fun h => ⟨h.quiet, h.connected, h.unposted⟩⟩

instance (stream : List Byte) (messages : List Message) (w : Fed World Byte) :
    Decidable (Caught stream messages w) :=
  decidable_of_iff (w.state.Quiet ∧ w.state.shared.disconnectRequested = false ∧
      w.taken = stream ∧
      ∀ m ∈ messages, m.encode.length ≤ w.state.shared.receiveBuffer.capacity)
    ⟨fun ⟨hquiet, hdisc, htaken, hfits⟩ => ⟨hquiet, hdisc, htaken, hfits⟩,
      fun h => ⟨h.quiet, h.connected, h.taken, h.fits⟩⟩

variable {l : Ends World World Byte}

theorem inOrder {sender : World} {receiver : Fed World Byte}
    (hsender : system.Reach sendsDrained sender)
    (hreceiver : (fedSession sender.shared.transferred).Reach WellBehaved.keepsOrder receiver)
    (hsizes : SizesFit sender.shared.accepted) : InOrder sender receiver.state where
  delivered := by
    rw [← decoded_encodings hsizes]
    exact (Delivery.upheld hreceiver).delivered.trans
      (Delivery.decoded_front (transferred_front hsender))

/-- In every run of the two ends, each of which may fail, be disconnected or stop at any
step, each delivers the front of what the other has accepted: ids and payloads unchanged,
in the order of acceptance, nothing twice and nothing left out. -/
theorem link_in_order (hl : link.Reach (either orderly orderly) l) :
    (SizesFit l.left.state.shared.accepted → InOrder l.left.state l.right.state) ∧
    (SizesFit l.right.state.shared.accepted → InOrder l.right.state l.left.state) := by
  obtain ⟨hleft, hright⟩ := reach_ends hl
  have hsender : ∀ {stream} {w : Fed World Byte}, (fedSession stream).Reach orderly w →
      system.Reach sendsDrained w.state := fun h => reach_state (fun _ _ hok => hok.2) h
  have hreceiver : ∀ {stream} {w : Fed World Byte}, (fedSession stream).Reach orderly w →
      (fedSession stream).Reach WellBehaved.keepsOrder w := fun h => h.mono fun _ _ hok => hok.1
  exact ⟨inOrder (hsender hleft) (hreceiver hright), inOrder (hsender hright) (hreceiver hleft)⟩

def Ends.fresh : Ends World World Byte :=
  ⟨⟨World.fresh 16 16, []⟩, ⟨World.fresh 16 16, []⟩⟩

theorem Ends.reach_fresh {ok : Ends World World Byte → Label ⊕ Label → Prop} :
    link.Reach ok Ends.fresh :=
  .init ⟨⟨⟨⟨_, _, _, rfl, rfl, rfl⟩, rfl⟩, rfl⟩, ⟨⟨⟨_, _, _, rfl, rfl, rfl⟩, rfl⟩, rfl⟩⟩

/-- The left end sends a message, and the right end takes it off the wire. -/
def messageRun : List (Label ⊕ Label) :=
  .inl (.spawn (.call (.sendMessage ⟨1, [7]⟩))) :: (Label.goes 0 11).map .inl ++
    .inr (.spawn (.call .startReceiveLoop)) :: (Label.goes 0 7).map .inr ++
    .inl (.spawn (.sendCompletion 0 true 5)) :: (Label.goes 1 9).map .inl ++
    .inr (.spawn (.recvCompletion 0 true [])) :: (Label.goes 1 5).map .inr ++
    .inr (.spawn (.recvCompletion 0 true [0, 5, 0, 1, 7])) :: (Label.goes 2 21).map .inr

theorem link_in_order_of_message :
    ∃ l, link.runUnder (either orderly orderly) Ends.fresh messageRun = some l ∧
      (packets l.right.state.shared.log).length = 1 ∧ InOrder l.left.state l.right.state := by
  obtain ⟨l, hrun, hat⟩ := exists_of_runUnder link (either orderly orderly) Ends.fresh messageRun
    (fun l => decide ((packets l.right.state.shared.log).length = 1 ∧
      l.left.state.shared.accepted = [⟨1, [7]⟩])) (by decide)
  obtain ⟨hone, haccepted⟩ := of_decide_eq_true hat
  refine ⟨l, hrun, hone, (link_in_order (Ends.reach_fresh.of_runUnder hrun)).1 ?_⟩
  rw [haccepted]
  simp [SizesFit]

/-- An orderly end that does not give up `m_SendInProgress` unseen. -/
def attentive (w : Fed World Byte) (l : Label) : Prop :=
  orderly w l ∧ givesUpSeen w.state l

instance (w : Fed World Byte) (l : Label) : Decidable (attentive w l) :=
  inferInstanceAs (Decidable (_ ∧ _))

theorem transferred_all (hw : system.Reach sendsDrained w) (hseen : system.Reach givesUpSeen w)
    (hspent : Spent w) : w.shared.transferred = encodings w.shared.accepted := by
  have hempty : w.shared.sendBuffer.size = 0 := by
    by_contra hsome
    have hawake := awake hseen hspent.connected hsome
    rw [hspent.quiet.weigh, hspent.unposted] at hawake
    cases hawake
  obtain ⟨-, consumed, n, hsending⟩ := readingPhase_of_readsWritten.sending
    (hw.mono fun _ _ h => h.1) (ended_eq_zero hw hspent.connected).1
  have hsize := hsending.size
  have hdrained := hsending.drained
  rw [hspent.quiet.weigh] at hdrained
  have hlength : w.shared.transferred.length = w.shared.stream.length := by omega
  exact hsending.sent.eq_of_length hlength

theorem frames_encode {messages : List Message} {capacity : Nat} (hsizes : SizesFit messages)
    (hfits : ∀ m ∈ messages, m.encode.length ≤ capacity) :
    WellBehaved.Frames capacity (messages.map Message.encode) := by
  intro f hf
  obtain ⟨m, hm, rfl⟩ := List.mem_map.mp hf
  refine ⟨?_, hfits m hm⟩
  rw [m.encode_eq]
  exact nextFrame_makeRawBinaries m.packetId (by have := hsizes m hm; omega)

theorem delivered_all {messages : List Message} {receiver : Fed World Byte}
    (hw : (fedSession (encodings messages)).Reach WellBehaved.keepsOrder receiver)
    (hsizes : SizesFit messages) (hcaught : Caught (encodings messages) messages receiver) :
    packets receiver.state.shared.log = messages.map Message.packet := by
  rcases eq_or_ne messages [] with rfl | hsome
  · have hdelivered := (Delivery.upheld hw).delivered
    rw [decoded_encodings hsizes] at hdelivered
    exact List.prefix_nil.mp hdelivered
  · have hcap : 0 < receiver.state.shared.receiveBuffer.capacity := by
      obtain ⟨m, hm⟩ := List.exists_mem_of_ne_nil messages hsome
      have hpos := m.totalSize_pos
      have hle := hcaught.fits m hm
      rw [m.length_encode] at hle
      omega
    have hzero : receiver.state.stacks.weigh WellBehaved.Read.token = 0 := by
      rw [World.weigh_stacks, hcaught.quiet.weigh]
    have hcut := ((Delivery.staged hw hcaught.connected).idle hzero).cut
    have hneed := ((WellBehaved.staged hw (frames_encode hsizes hcaught.fits) hcap
      hcaught.connected).idle hzero).resting.needMore
    -- no whole frame is left in the ring
    obtain ⟨hout, -⟩ := hcut.stop (fun n hn => by
      rw [show nextFrame _ = _ from hn] at hneed
      cases hneed)
    rw [List.append_nil, hcaught.taken] at hout
    exact hout.trans (decoded_encodings hsizes)

/-- At rest each end has delivered exactly what the other has accepted. -/
theorem link_complete (hl : link.Reach (either attentive attentive) l) :
    (SizesFit l.left.state.shared.accepted → Spent l.left.state →
      Caught l.left.state.shared.transferred l.left.state.shared.accepted l.right →
      packets l.right.state.shared.log = l.left.state.shared.accepted.map Message.packet) ∧
    (SizesFit l.right.state.shared.accepted → Spent l.right.state →
      Caught l.right.state.shared.transferred l.right.state.shared.accepted l.left →
      packets l.left.state.shared.log = l.right.state.shared.accepted.map Message.packet) := by
  have hcomplete : ∀ {stream} {sender receiver : Fed World Byte},
      (fedSession stream).Reach attentive sender →
      (fedSession sender.state.shared.transferred).Reach attentive receiver →
      SizesFit sender.state.shared.accepted → Spent sender.state →
      Caught sender.state.shared.transferred sender.state.shared.accepted receiver →
      packets receiver.state.shared.log =
        sender.state.shared.accepted.map Message.packet := by
    intro stream sender receiver hsender hreceiver hsizes hspent hcaught
    have hall := transferred_all (reach_state (fun _ _ hok => hok.1.2) hsender)
      (reach_state (fun _ _ hok => hok.2) hsender) hspent
    rw [hall] at hreceiver hcaught
    exact delivered_all (hreceiver.mono fun _ _ hok => hok.1.1) hsizes hcaught
  obtain ⟨hleft, hright⟩ := reach_ends hl
  exact ⟨hcomplete hleft hright, hcomplete hright hleft⟩

theorem link_complete_of_message :
    ∃ l, link.runUnder (either attentive attentive) Ends.fresh messageRun = some l ∧
      packets l.right.state.shared.log = [Packet.create 1 [7]] := by
  obtain ⟨l, hrun, hat⟩ := exists_of_runUnder link (either attentive attentive) Ends.fresh
    messageRun (fun l => decide (Spent l.left.state ∧
      Caught l.left.state.shared.transferred l.left.state.shared.accepted l.right ∧
      l.left.state.shared.accepted = [⟨1, [7]⟩])) (by decide)
  obtain ⟨hspent, hcaught, haccepted⟩ := of_decide_eq_true hat
  have hall := (link_complete (Ends.reach_fresh.of_runUnder hrun)).1 (by
    rw [haccepted]
    simp [SizesFit]) hspent hcaught
  rw [haccepted] at hall
  exact ⟨l, hrun, hall⟩

end FastPort.Sessions
