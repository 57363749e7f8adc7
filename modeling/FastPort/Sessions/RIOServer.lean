import FastPort.Foundation.Hook
import FastPort.Services.InboundSession
import FastPort.Sessions.RIOLink

/-! `RIOInboundSession`: a `RIOSession` whose callbacks are the handlers of the RIO server.
Nobody but a handler calls `SendMessage` on it. The packets are handled in the order in
which they were delivered, and the answers are accepted in that order. -/
namespace FastPort.Sessions.Rio.Server

open FastPort.Commons FastPort.Core FastPort.Foundation.Hook FastPort.Foundation.Pool
open FastPort.Foundation.Refinement FastPort.Foundation.Stack FastPort.Foundation.Tally
open FastPort.Foundation.Transition FastPort.Services

/-- A handler of a packet, the rest of a handler behind its call of `SendMessage`, and
`OnDisconnected`. -/
inductive Code where
  | onPacketReceived (packet : Packet)
  | returned
  | onDisconnected
deriving DecidableEq

abbrev Answers := List (Packet × Option Message)

structure AdminInputs where
  collector : Stats.ServerStatsCollector
  steadyMs : Int64
  wallMs : Int64
  snapshot : Stats.Snapshot
  sampler : Option Stats.Sampled

/-- Whether the request that a step posts is taken, and what its handler reads. -/
structure Choice where
  accepted : Bool
  recvTimestampNs : UInt64
  sendTimestampNs : UInt64
  timeS : UInt64
  admin : Option AdminInputs

def Choice.inputs (choice : Choice) : Inbound.Inputs where
  recvTimestampNs := choice.recvTimestampNs
  sendTimestampNs := choice.sendTimestampNs
  timeS := choice.timeS
  admin := choice.admin.map fun a =>
    (a.collector, Inbound.rioReadings a.steadyMs a.wallMs a.snapshot a.sampler)

/-- The acceptor starts the loop, and completions come in. -/
inductive Event where
  | startReceiveLoop
  | recvCompletion (index : Nat) (success : Bool) (data : List Byte)
  | sendCompletion (index : Nat) (success : Bool) (bytesTransferred : Nat)
deriving DecidableEq

def Event.session : Event → Duplex.Event
  | startReceiveLoop => .startReceiveLoop
  | recvCompletion index success data => .recvCompletion index success data
  | sendCompletion index success bytesTransferred => .sendCompletion index success bytesTransferred

/-- The handlers in the place of the user code of the session. -/
def handlers (codec : Inbound.Codec) :
    UserCode Duplex.program Message Answers Code Choice Event where
  hook := .userCode
  frame m := .send (.checkDisconnected m)
  choice c call := ⟨c.accepted, call⟩
  event := Event.session
  enters
    | .onPacketReceived packet => .onPacketReceived packet
    | _ => .onDisconnected
  own := []
  act choice answers
    | .onPacketReceived packet =>
        match Inbound.onPacketReceived codec choice.inputs packet with
        | none => (answers ++ [(packet, none)], .returns)
        | some m => (answers ++ [(packet, some m)], .calls m .returned)
    | .returned => (answers, .returns)
    | .onDisconnected => (answers, .returns)
  exec_returns _ _ := rfl
  exec_calls _ _ _ := rfl

abbrev Shared := Duplex.Shared × Answers
abbrev Frame := Layered Duplex.Frame Code
abbrev World := Stacks Shared Frame
abbrev Label := Move Choice Event

variable (codec : Inbound.Codec)

def program : Program Shared Frame Choice Event := (handlers codec).program

def system : System World Label := (program codec).system

def World.session (w : World) : Duplex.World := (handlers codec).simulation.state w

def sent (answers : Answers) : List Message := answers.filterMap Prod.snd

@[simp] theorem sent_append (answers more : Answers) :
    sent (answers ++ more) = sent answers ++ sent more :=
  List.filterMap_append

/-- What the handlers have to do with: the packets delivered, the messages accepted, and
the answers. -/
structure View where
  delivered : List Packet
  accepted : List Message
  isDisconnected : Bool
  answers : Answers

def Shared.view (s : Shared) : View where
  delivered := Duplex.packets s.1.log
  accepted := s.1.accepted
  isDisconnected := s.1.isDisconnected
  answers := s.2

/-- The frames of a handler of a packet: one at a time on a thread. -/
def handler : Frame → Nat
  | .code (.onPacketReceived _) | .code .returned => 1
  | _ => 0

def carries : Frame → Nat
  | .base (.send (.checkDisconnected _)) | .base (.send (.checkPending _))
  | .base (.send (.enqueue _)) => 1
  | _ => 0

inductive Steps (choice : Choice) (v : View) : Frame → View → List Frame → Prop where
  | delivered {packet : Packet} :
      Steps choice v (.base (.onPacketReceived packet))
        { v with delivered := v.delivered ++ [packet] }
        [.code (.onPacketReceived packet), .base .readReceivedBuffers]
  | ignored {packet : Packet}
      (hnone : Inbound.onPacketReceived codec choice.inputs packet = none) :
      Steps choice v (.code (.onPacketReceived packet))
        { v with answers := v.answers ++ [(packet, none)] } []
  | answered {packet : Packet} {m : Message}
      (hsome : Inbound.onPacketReceived codec choice.inputs packet = some m) :
      Steps choice v (.code (.onPacketReceived packet))
        { v with answers := v.answers ++ [(packet, some m)] }
        [.base (.send (.checkDisconnected m)), .code .returned]
  | returned : Steps choice v (.code .returned) v []
  | cleared : Steps choice v (.code .onDisconnected) v []
  | dropped {m : Message} (hdisc : v.isDisconnected = true) :
      Steps choice v (.base (.send (.checkDisconnected m))) v []
  | checked {m : Message} (hdisc : v.isDisconnected = false) :
      Steps choice v (.base (.send (.checkDisconnected m))) v [.base (.send (.checkPending m))]
  | refused {m : Message} :
      Steps choice v (.base (.send (.checkPending m))) v [.base (.send .disconnect)]
  | passed {m : Message} :
      Steps choice v (.base (.send (.checkPending m))) v [.base (.send (.enqueue m))]
  | accepted {m : Message} :
      Steps choice v (.base (.send (.enqueue m))) { v with accepted := v.accepted ++ [m] }
        [.base (.send .flushPendingSendQueue)]
  | flushed : Steps choice v (.base (.send .flushPendingSendQueue)) v []
  | stored :
      Steps choice v (.base (.send .disconnect)) { v with isDisconnected := true }
        [.base (.send .onDisconnected)]
  | announced : Steps choice v (.base (.send .onDisconnected)) v [.code .onDisconnected]
  | completed {success : Bool} {n : Nat} {next : Rio.Frame}
      (hnext : carries (.base (.send next)) = 0) :
      Steps choice v (.base (.send (.sendCompletion success n))) v [.base (.send next)]
  | consumed {n : Nat} :
      Steps choice v (.base (.send (.consume n))) v [.base (.send .flushPendingSendQueue)]
  | received {f : Duplex.Frame} {fs : List Frame} (hsend : ∀ g, f ≠ .send g)
      (hfs : ∀ g ∈ fs, handler g = 0 ∧ carries g = 0) : Steps choice v (.base f) v fs

variable {codec}

theorem flush_view (accepted : Bool) (s : Rio.Shared) :
    (flushPendingSendQueue accepted s).accepted = s.accepted ∧
      (flushPendingSendQueue accepted s).isDisconnected = s.isDisconnected := by
  unfold flushPendingSendQueue tryPostSendFromQueue
  dsimp only
  split
  · exact ⟨rfl, rfl⟩
  · split
    · exact ⟨rfl, rfl⟩
    · split <;> exact ⟨rfl, rfl⟩

theorem enqueue_view (m : Message) (s : Rio.Shared) :
    (enqueue m s).accepted = s.accepted ++ [m] ∧
      (enqueue m s).isDisconnected = s.isDisconnected := by
  unfold enqueue
  dsimp only
  split
  · split <;> exact ⟨rfl, rfl⟩
  · exact ⟨rfl, rfl⟩

theorem exec_send (choice : Choice) (s : Shared) (f : Rio.Frame) (hf : f ≠ .onDisconnected) :
    ((program codec).exec choice s (.base (.send f))).1.view =
        ⟨s.view.delivered, (f.exec choice.accepted s.1.toShared).1.accepted,
          (f.exec choice.accepted s.1.toShared).1.isDisconnected, s.view.answers⟩ ∧
      ((program codec).exec choice s (.base (.send f))).2 =
        (f.exec choice.accepted s.1.toShared).2.toList.map fun g => .base (.send g) := by
  have hsend : Duplex.send choice.accepted s.1 f =
      ({ s.1 with
          toShared := (f.exec choice.accepted s.1.toShared).1
          log := s.1.log ++ List.replicate
            ((f.exec choice.accepted s.1.toShared).1.rioSends.length - s.1.rioSends.length)
            .rioSend },
        (f.exec choice.accepted s.1.toShared).2.toList.map .send) := by
    cases f with
    | onDisconnected => exact absurd rfl hf
    | _ => rfl
  simp only [program, UserCode.program, UserCode.exec, handlers, Duplex.program,
    Duplex.Frame.exec, hsend]
  constructor
  · simp [Shared.view]
  · cases (f.exec choice.accepted s.1.toShared).2 <;> rfl

theorem steps_send (choice : Choice) (s : Shared) (f : Rio.Frame) :
    Steps codec choice s.view (.base (.send f))
      ((program codec).exec choice s (.base (.send f))).1.view
      ((program codec).exec choice s (.base (.send f))).2 := by
  by_cases hf : f = .onDisconnected
  · subst hf
    have hview : ((program codec).exec choice s (.base (.send .onDisconnected))).1.view =
        s.view := by
      simp [program, UserCode.program, UserCode.exec, handlers, Duplex.program,
        Duplex.Frame.exec, Duplex.send, Shared.view, Rio.Frame.exec, Duplex.packets]
    rw [hview]
    exact .announced
  · obtain ⟨hview, hfs⟩ := @exec_send codec choice s f hf
    rw [hview, hfs]
    cases f with
    | onDisconnected => exact absurd rfl hf
    | checkDisconnected m =>
      simp only [Rio.Frame.exec]
      split
      · rename_i hdisc
        exact .dropped hdisc
      · rename_i hdisc
        exact .checked (Bool.eq_false_iff.mpr hdisc)
    | checkPending m =>
      simp only [Rio.Frame.exec]
      split
      · exact .refused
      · exact .passed
    | enqueue m =>
      simp only [Rio.Frame.exec, enqueue_view]
      exact .accepted
    | flushPendingSendQueue =>
      simp only [Rio.Frame.exec, flush_view]
      exact .flushed
    | sendCompletion success n =>
      refine .completed ?_
      cases success <;> rfl
    | consume n => exact .consumed
    | disconnect => exact .stored

theorem exec_receive (choice : Choice) (s : Shared) {f : Duplex.Frame} (hsend : ∀ g, f ≠ .send g)
    (hpacket : ∀ packet, f ≠ .onPacketReceived packet) :
    ((program codec).exec choice s (.base f)).1.view = s.view ∧
      ∀ g ∈ ((program codec).exec choice s (.base f)).2, handler g = 0 ∧ carries g = 0 := by
  have hstep := f.steps_exec ⟨choice.accepted, none⟩ s.1
  simp only [program, UserCode.program, UserCode.exec, handlers, Duplex.program, Shared.view]
  generalize (f.exec ⟨choice.accepted, none⟩ s.1).1 = s' at hstep ⊢
  generalize (f.exec ⟨choice.accepted, none⟩ s.1).2 = fs at hstep ⊢
  cases hstep with
  | stored | announced | sent => exact absurd rfl (hsend _)
  | delivered => exact absurd rfl (hpacket _)
  | calledSendMessage hcall => cases hcall
  | recvPosted => exact ⟨by simp [Duplex.packets], by simp [UserCode.fill]⟩
  | _ => exact ⟨rfl, by simp [UserCode.fill, handler, carries]⟩

theorem steps_exec (choice : Choice) (s : Shared) (f : Frame) :
    Steps codec choice s.view f ((program codec).exec choice s f).1.view
      ((program codec).exec choice s f).2 := by
  cases f with
  | code c =>
    cases c with
    | onPacketReceived packet =>
      simp only [program, UserCode.program, UserCode.exec, handlers]
      cases hsent : Inbound.onPacketReceived codec choice.inputs packet with
      | none => exact .ignored hsent
      | some m => exact .answered hsent
    | returned => exact .returned
    | onDisconnected => exact .cleared
  | base f =>
    by_cases hsend : ∃ g, f = .send g
    · obtain ⟨g, rfl⟩ := hsend
      exact steps_send choice s g
    · by_cases hpacket : ∃ packet, f = .onPacketReceived packet
      · obtain ⟨packet, rfl⟩ := hpacket
        have hview : ((program codec).exec choice s (.base (.onPacketReceived packet))).1.view =
            { s.view with delivered := s.view.delivered ++ [packet] } := by
          simp [program, UserCode.program, UserCode.exec, handlers, Duplex.program,
            Duplex.Frame.exec, Shared.view, Duplex.packets]
        rw [hview]
        exact .delivered
      · obtain ⟨hview, hfs⟩ := @exec_receive codec choice s _
          (fun g hg => hsend ⟨g, hg⟩) (fun packet hp => hpacket ⟨packet, hp⟩)
        rw [hview]
        exact .received (fun g hg => hsend ⟨g, hg⟩) hfs

def armed : Frame → Nat
  | .base f => f.arm
  | .code _ => 0

def opens : Frame → Nat
  | .base (.send _) | .code .onDisconnected => 0
  | _ => 1

/-- A handler stands above the receive loop that called it, and above nothing else of its
kind; a message is sent by a handler. -/
def Nested : List Frame → Prop
  | [] => True
  | f :: rest => (0 < handler f → 0 < tally armed rest) ∧ (0 < opens f → tally handler rest = 0) ∧
      (0 < carries f → 0 < tally handler rest) ∧ Nested rest

theorem Nested.of_none {stack : List Frame} (h : ∀ g ∈ stack, handler g = 0 ∧ carries g = 0) :
    Nested stack := by
  induction stack with
  | nil => trivial
  | cons f rest ih =>
    obtain ⟨hhandler, hcarries⟩ := h f List.mem_cons_self
    have hrest := fun g hg => h g (List.mem_cons_of_mem f hg)
    exact ⟨fun hpos => by omega, fun _ => tally_eq_zero.mpr fun g hg => (hrest g hg).1,
      fun hpos => by omega, ih hrest⟩

theorem Nested.carries_eq_zero {stack : List Frame} (h : Nested stack)
    (hnone : tally handler stack = 0) : ∀ g ∈ stack, handler g = 0 ∧ carries g = 0 := by
  induction stack with
  | nil => simp
  | cons f rest ih =>
    obtain ⟨-, -, hcarries, hrest⟩ := h
    rw [tally_cons] at hnone
    intro g hg
    rcases List.mem_cons.mp hg with rfl | hg
    · exact ⟨by omega, Nat.eq_zero_of_not_pos fun hpos => by have := hcarries hpos; omega⟩
    · exact ih hrest (by omega) g hg

theorem Nested.tally_le {stack : List Frame} (h : Nested stack) :
    tally handler stack ≤ tally armed stack ∧ tally handler stack ≤ 1 := by
  induction stack with
  | nil => exact ⟨Nat.le_refl _, Nat.zero_le _⟩
  | cons f rest ih =>
    obtain ⟨hbelow, hnone, -, hrest⟩ := h
    obtain ⟨hle, hone⟩ := ih hrest
    simp only [tally_cons]
    have hcases : handler f = 0 ∨ (handler f = 1 ∧ 0 < opens f) := by
      cases f with
      | base f => exact .inl rfl
      | code c => cases c <;> simp [handler, opens]
    rcases hcases with hzero | ⟨hhandler, hopens⟩
    · omega
    · have := hbelow (by omega)
      have := hnone hopens
      omega

theorem Nested.push {f : Frame} {rest : List Frame} (h : Nested rest) (hhandler : handler f = 0)
    (hopens : opens f = 0) (hcarries : 0 < carries f → 0 < tally handler rest) :
    Nested (f :: rest) :=
  ⟨fun hpos => by omega, fun hpos => by omega, hcarries, h⟩

theorem Nested.steps {choice : Choice} {v v' : View} {f : Frame} {rest fs : List Frame}
    (h : Nested (f :: rest)) (hsteps : Steps codec choice v f v' fs) : Nested (fs ++ rest) := by
  obtain ⟨hbelow, hnone, hcarries, hrest⟩ := h
  cases hsteps with
  | delivered =>
    have hzero : tally handler rest = 0 := hnone Nat.one_pos
    have hloop : Nested (.base .readReceivedBuffers :: rest) :=
      ⟨fun hpos => absurd hpos (Nat.lt_irrefl 0), fun _ => hzero,
        fun hpos => absurd hpos (Nat.lt_irrefl 0), hrest⟩
    refine ⟨fun _ => ?_, fun _ => ?_, fun hpos => absurd hpos (Nat.lt_irrefl 0), hloop⟩
    · simp [armed, Duplex.Frame.arm]
    · simpa [handler] using hzero
  | answered =>
    have hreturned : Nested (.code .returned :: rest) :=
      ⟨hbelow, hnone, fun hpos => absurd hpos (Nat.lt_irrefl 0), hrest⟩
    exact hreturned.push rfl rfl fun _ => by simp [handler]
  | @received f _ hsend hfs =>
    have hopens : 0 < opens (.base f) := by
      cases f with
      | send g => exact absurd rfl (hsend g)
      | _ => exact Nat.one_pos
    apply Nested.of_none
    intro g hg
    rcases List.mem_append.mp hg with hg | hg
    · exact hfs g hg
    · exact hrest.carries_eq_zero (hnone hopens) g hg
  | ignored | returned | cleared | dropped | flushed => exact hrest
  | checked | passed => exact hrest.push rfl rfl hcarries
  | completed hnext => exact hrest.push rfl rfl fun hpos => by omega
  | _ => exact hrest.push rfl rfl fun hpos => absurd hpos (Nat.lt_irrefl 0)

theorem arrive_spec {s s' : Shared} {event : Event} {fs : List Frame}
    (h : (program codec).arrive event s = some (s', fs)) :
    s'.view = s.view ∧ ∀ g ∈ fs, handler g = 0 ∧ carries g = 0 := by
  obtain ⟨⟨shared, gs⟩, harrived, hr⟩ := Option.map_eq_some_iff.mp h
  cases hr
  have harrive : s.1.arrive event.session = some (shared, gs) := harrived
  cases event with
  | startReceiveLoop =>
    cases harrive
    exact ⟨rfl, by simp [handler, carries]⟩
  | recvCompletion index success data =>
    simp only [Event.session, Duplex.Shared.arrive] at harrive
    split at harrive
    · cases harrive
    · split at harrive
      · cases harrive
        exact ⟨rfl, by simp [handler, carries]⟩
      · cases harrive
  | sendCompletion index success n =>
    simp only [Event.session, Duplex.Shared.arrive, Duplex.Shared.arriveSend,
      Rio.Shared.arrive] at harrive
    split at harrive
    · cases harrive
    · split at harrive
      · cases harrive
        exact ⟨rfl, by simp [handler, carries]⟩
      · cases harrive

variable {ok : World → Label → Prop} {w : World}

theorem nested (hw : (system codec).Reach ok w) : ∀ stack ∈ w.threads, Nested stack := by
  apply Program.forall_stack (p := program codec) (P := Nested) ?_ ?_ hw
  · intro w tid choice f rest _ _ h
    exact h.steps (steps_exec choice w.shared f)
  · intro w event s' fs _ _ harrived
    exact Nested.of_none (arrive_spec harrived).2

theorem reach_session (hw : (system codec).Reach ok w) :
    Duplex.system.Reach System.free (w.session codec) :=
  Simulation.reach_state (fun _ _ _ _ _ => trivial) hw

theorem weigh_armed (w : World) : w.weigh armed = (w.session codec).weigh Duplex.Frame.arm := by
  have hweight : armed = fun f => Duplex.Frame.arm ((handlers codec).erase f) := by
    funext f
    cases f <;> rfl
  rw [hweight]
  exact ((handlers codec).weigh_state Duplex.Frame.arm w).symm

theorem armed_le_one (hw : (system codec).Reach ok w) : w.weigh armed ≤ 1 := by
  rw [@weigh_armed codec]
  exact Duplex.arm_le_one (reach_session hw)

theorem handler_le_one (hw : (system codec).Reach ok w) :
    tally (tally handler) w.threads ≤ 1 := by
  have hle := tally_le_tally fun stack hstack => (nested hw stack hstack).tally_le.1
  have hone := armed_le_one hw
  unfold Stacks.weigh at hone
  omega

structure Passed (v : View) : Prop where
  front : v.accepted <+: sent v.answers
  all : v.isDisconnected = false → v.accepted = sent v.answers

def Sending (v : View) : Rio.Frame → Prop
  | .checkDisconnected m => ∃ before, sent v.answers = before ++ [m] ∧ v.accepted <+: before ∧
      (v.isDisconnected = false → v.accepted = before)
  | .checkPending m | .enqueue m => v.accepted ++ [m] = sent v.answers
  | .disconnect => v.accepted <+: sent v.answers
  | .flushPendingSendQueue | .onDisconnected => Passed v
  | .sendCompletion _ _ | .consume _ => False

/-- What is known of a thread that a handler is at work on. -/
def Stage (v : View) : List Frame → Prop
  | .code (.onPacketReceived packet) :: _ =>
      v.delivered = v.answers.map Prod.fst ++ [packet] ∧ Passed v
  | .code .returned :: _ | .code .onDisconnected :: .code .returned :: _ =>
      v.delivered = v.answers.map Prod.fst ∧ Passed v
  | .base (.send f) :: .code .returned :: _ =>
      v.delivered = v.answers.map Prod.fst ∧ Sending v f
  | _ => False

structure Idle (v : View) : Prop where
  delivered : v.delivered = v.answers.map Prod.fst
  passed : Passed v

theorem Stage.stored {v : View} {stack : List Frame} (h : Stage v stack) :
    Stage { v with isDisconnected := true } stack := by
  have hpassed : Passed v → Passed { v with isDisconnected := true } :=
    fun hp => ⟨hp.front, fun hdisc => by cases hdisc⟩
  unfold Stage at h ⊢
  split at h
  · exact ⟨h.1, hpassed h.2⟩
  · exact ⟨h.1, hpassed h.2⟩
  · exact ⟨h.1, hpassed h.2⟩
  · rename_i f _
    refine ⟨h.1, ?_⟩
    cases f with
    | checkDisconnected m =>
      obtain ⟨before, hsent, hfront, -⟩ := h.2
      exact ⟨before, hsent, hfront, fun hdisc => by cases hdisc⟩
    | flushPendingSendQueue => exact hpassed h.2
    | onDisconnected => exact hpassed h.2
    | _ => exact h.2
  · exact h

theorem Passed.stored {v : View} (h : v.accepted <+: sent v.answers) :
    Passed { v with isDisconnected := true } :=
  ⟨h, fun hdisc => by cases hdisc⟩

theorem Stage.send {v : View} {f : Rio.Frame} {rest : List Frame}
    (h : Stage v (.base (.send f) :: rest)) :
    ∃ below, rest = .code .returned :: below ∧ v.delivered = v.answers.map Prod.fst ∧
      Sending v f := by
  unfold Stage at h
  split at h
  · rename_i heq
    cases heq
  · rename_i heq
    cases heq
  · rename_i heq
    cases heq
  · rename_i heq
    cases heq
    exact ⟨_, rfl, h⟩
  · cases h

theorem Stage.cleared {v : View} {rest : List Frame}
    (h : Stage v (.code .onDisconnected :: rest)) :
    ∃ below, rest = .code .returned :: below ∧ v.delivered = v.answers.map Prod.fst ∧
      Passed v := by
  unfold Stage at h
  split at h
  · rename_i heq
    cases heq
  · rename_i heq
    cases heq
  · rename_i heq
    cases heq
    exact ⟨_, rfl, h⟩
  · rename_i heq
    cases heq
  · cases h

theorem Steps.owner {choice : Choice} {v v' : View} {f : Frame} {rest fs : List Frame}
    (hsteps : Steps codec choice v f v' fs) (hnested : Nested (f :: rest))
    (h : Stage v (f :: rest)) : Settles (tally handler) Stage Idle v' (fs ++ rest) := by
  have hreturned : ∀ fs below, 0 < tally handler (fs ++ .code .returned :: below) := by
    intro fs below
    rw [tally_append, tally_cons]
    exact Nat.lt_of_lt_of_le Nat.one_pos (Nat.le_trans (Nat.le_add_right 1 _) (Nat.le_add_left _ _))
  cases hsteps with
  | delivered => cases h
  | ignored =>
    obtain ⟨hdelivered, hpassed⟩ : _ ∧ _ := h
    refine .of_idle ⟨?_, ?_⟩ (hnested.2.1 Nat.one_pos)
    · simpa using hdelivered
    · constructor
      · simpa [sent] using hpassed.front
      · simpa [sent] using hpassed.all
  | answered =>
    obtain ⟨hdelivered, hpassed⟩ : _ ∧ _ := h
    refine .of_stage ⟨?_, _, sent_append _ _, hpassed.front, hpassed.all⟩ ?_
    · simpa using hdelivered
    · simp [handler]
  | returned => exact .of_idle ⟨h.1, h.2⟩ (hnested.2.1 Nat.one_pos)
  | cleared =>
    obtain ⟨below, rfl, hdelivered, hpassed⟩ := h.cleared
    exact .of_stage ⟨hdelivered, hpassed⟩ (hreturned _ below)
  | received hsend =>
    unfold Stage at h
    split at h <;> simp_all
  | dropped hdisc =>
    obtain ⟨below, rfl, hdelivered, before, hsent, hfront, -⟩ := h.send
    refine .of_stage ⟨hdelivered, ?_, ?_⟩ (hreturned _ below)
    · rw [hsent]
      exact hfront.trans (List.prefix_append _ _)
    · intro hconnected
      rw [hdisc] at hconnected
      cases hconnected
  | checked hdisc =>
    obtain ⟨below, rfl, hdelivered, before, hsent, -, hall⟩ := h.send
    refine .of_stage ⟨hdelivered, ?_⟩ (hreturned _ below)
    rw [Sending, hall hdisc, hsent]
  | refused =>
    obtain ⟨below, rfl, hdelivered, hsent⟩ := h.send
    refine .of_stage ⟨hdelivered, ?_⟩ (hreturned _ below)
    rw [Sending, ← show _ = _ from hsent]
    exact List.prefix_append _ _
  | passed =>
    obtain ⟨below, rfl, hdelivered, hsent⟩ := h.send
    exact .of_stage ⟨hdelivered, hsent⟩ (hreturned _ below)
  | accepted =>
    obtain ⟨below, rfl, hdelivered, hsent⟩ := h.send
    have hsent' : v.accepted ++ _ = sent v.answers := hsent
    exact .of_stage ⟨hdelivered, hsent' ▸ List.prefix_refl _, fun _ => hsent'⟩ (hreturned _ below)
  | flushed =>
    obtain ⟨below, rfl, hdelivered, hpassed⟩ := h.send
    exact .of_stage ⟨hdelivered, hpassed⟩ (hreturned _ below)
  | stored =>
    obtain ⟨below, rfl, hdelivered, hfront⟩ := h.send
    exact .of_stage ⟨hdelivered, Passed.stored hfront⟩ (hreturned _ below)
  | announced =>
    obtain ⟨below, rfl, hdelivered, hpassed⟩ := h.send
    exact .of_stage ⟨hdelivered, hpassed⟩ (hreturned _ below)
  | completed =>
    obtain ⟨below, -, -, hfalse⟩ := h.send
    exact absurd hfalse id
  | consumed =>
    obtain ⟨below, -, -, hfalse⟩ := h.send
    exact absurd hfalse id

theorem Steps.other {choice : Choice} {v v' : View} {f : Frame} {rest fs : List Frame}
    (hsteps : Steps codec choice v f v' fs) (hnested : Nested (f :: rest))
    (hnone : tally handler (f :: rest) = 0) :
    (tally handler (fs ++ rest) = 0 → ∀ stack, Stage v stack → Stage v' stack) ∧
      (Idle v → Settles (tally handler) Stage Idle v' (fs ++ rest)) := by
  rw [tally_cons] at hnone
  have hrest : tally handler rest = 0 := by omega
  have hcarries : carries f = 0 := Nat.eq_zero_of_not_pos fun hpos => by
    have := hnested.2.2.1 hpos
    omega
  have hsame : ∀ {fs}, tally handler fs = 0 → v' = v →
      (tally handler (fs ++ rest) = 0 → ∀ stack, Stage v stack → Stage v' stack) ∧
        (Idle v → Settles (tally handler) Stage Idle v' (fs ++ rest)) := by
    rintro fs hfs rfl
    exact ⟨fun _ _ h => h, fun h => .of_idle h (by rw [tally_append]; omega)⟩
  cases hsteps with
  | delivered =>
    refine ⟨fun hzero => by simp [handler] at hzero, fun h => ?_⟩
    refine .of_stage ⟨?_, h.passed.front, h.passed.all⟩ (by simp [handler])
    simp [h.delivered]
  | ignored | answered | returned => simp [handler] at hnone
  | accepted => cases hcarries
  | stored =>
    refine ⟨fun _ stack h => h.stored, fun h => ?_⟩
    exact .of_idle ⟨h.delivered, Passed.stored h.passed.front⟩ (by simpa [handler] using hrest)
  | received hsend hfs => exact hsame (tally_eq_zero.mpr fun g hg => (hfs g hg).1) rfl
  | _ => exact hsame rfl rfl

theorem held (hw : (system codec).Reach ok w) :
    Held (tally handler) (fun s => Stage s.view) (fun s => Idle s.view) w := by
  refine Machine.token handler_le_one ?_ ?_ ?_ ?_ hw
  · rintro ⟨s, answers⟩ ⟨⟨recvSlice, sendSlice, recvMemory, sendMemory, -, -, rfl⟩, rfl⟩
    exact ⟨rfl, List.prefix_refl _, fun _ => rfl⟩
  · intro w tid choice stack s' stack' hreach _ hthread hrun _ hstage
    cases stack with
    | nil => cases hrun
    | cons f rest =>
      cases hrun
      have hsettles := (@steps_exec codec choice w.shared f).owner
        (nested hreach _ (List.mem_of_getElem? hthread)) hstage
      exact ⟨hsettles.stage, hsettles.idle⟩
  · intro w tid choice stack s' stack' hreach _ hthread hrun hzero
    cases stack with
    | nil => cases hrun
    | cons f rest =>
      cases hrun
      obtain ⟨hkeep, htake⟩ := (@steps_exec codec choice w.shared f).other
        (nested hreach _ (List.mem_of_getElem? hthread)) hzero
      exact ⟨fun hnone stack _ => hkeep hnone stack,
        fun h => ⟨(htake h).stage, (htake h).idle⟩⟩
  · intro w event s' fs _ _ harrived
    obtain ⟨hview, hfs⟩ := arrive_spec harrived
    have hnone : tally handler fs = 0 := tally_eq_zero.mpr fun g hg => (hfs g hg).1
    exact ⟨fun _ _ _ h => hview ▸ h, fun h => .of_idle (hview ▸ h) hnone⟩

/-- What a handler at work has handled is the front of what was delivered, and what was
accepted is the front of what it has sent. -/
structure InOrder (v : View) : Prop where
  handled : v.answers.map Prod.fst <+: v.delivered
  accepted : v.accepted <+: sent v.answers

theorem Sending.accepted {v : View} {f : Rio.Frame} (h : Sending v f) :
    v.accepted <+: sent v.answers := by
  cases f with
  | checkDisconnected m =>
    obtain ⟨before, hsent, hfront, -⟩ := h
    rw [hsent]
    exact hfront.trans (List.prefix_append _ _)
  | checkPending m =>
    exact ⟨[m], h⟩
  | enqueue m => exact ⟨[m], h⟩
  | disconnect => exact h
  | flushPendingSendQueue => exact h.front
  | onDisconnected => exact h.front
  | sendCompletion success n => exact absurd h id
  | consume n => exact absurd h id

theorem Stage.inOrder {v : View} {stack : List Frame} (h : Stage v stack) : InOrder v := by
  unfold Stage at h
  split at h
  · exact ⟨h.1 ▸ List.prefix_append _ _, h.2.front⟩
  · exact ⟨h.1 ▸ List.prefix_refl _, h.2.front⟩
  · exact ⟨h.1 ▸ List.prefix_refl _, h.2.front⟩
  · exact ⟨h.1 ▸ List.prefix_refl _, h.2.accepted⟩
  · cases h

theorem inOrder (hw : (system codec).Reach ok w) : InOrder w.shared.view := by
  have hheld := held hw
  by_cases hnone : tally (tally handler) w.threads = 0
  · have hidle := hheld.idle hnone
    exact ⟨hidle.delivered ▸ List.prefix_refl _, hidle.passed.front⟩
  · obtain ⟨stack, hstack, hpos⟩ : ∃ stack ∈ w.threads, 0 < tally handler stack := by
      by_contra hall
      refine hnone (tally_eq_zero.mpr fun stack hstack => ?_)
      by_contra hsome
      exact hall ⟨stack, hstack, Nat.pos_of_ne_zero hsome⟩
    exact (hheld.stage stack hstack hpos).inOrder

theorem idle_of_quiet (hw : (system codec).Reach ok w)
    (hquiet : ∀ stack ∈ w.threads, stack = []) : Idle w.shared.view :=
  (held hw).idle (tally_eq_zero.mpr fun stack hstack => by rw [hquiet stack hstack, tally_nil])

theorem Steps.answers {choice : Choice} {v v' : View} {f : Frame} {fs : List Frame}
    (h : Steps codec choice v f v' fs) :
    ∀ a ∈ v'.answers, a ∈ v.answers ∨ Inbound.Answered codec a.1 a.2 := by
  cases h with
  | ignored hnone =>
    intro a ha
    refine (List.mem_append.mp ha).imp id fun ha => ?_
    obtain rfl := List.mem_singleton.mp ha
    exact hnone ▸ Inbound.answered choice.inputs
  | answered hsome =>
    intro a ha
    refine (List.mem_append.mp ha).imp id fun ha => ?_
    obtain rfl := List.mem_singleton.mp ha
    exact hsome ▸ Inbound.answered choice.inputs
  | _ => exact fun a ha => .inl ha

theorem answered (hw : (system codec).Reach ok w) :
    ∀ a ∈ w.shared.view.answers, Inbound.Answered codec a.1 a.2 := by
  apply Program.invariant_shared (p := program codec)
    (I := fun s => ∀ a ∈ s.view.answers, Inbound.Answered codec a.1 a.2) ?_ ?_ ?_ hw
  · rintro ⟨s, answers⟩ ⟨-, hnone⟩ a ha
    cases hnone
    cases ha
  · intro choice s f ih a ha
    exact ((@steps_exec codec choice s f).answers a ha).elim (ih a) id
  · intro event s s' fs ih harrived
    rw [(arrive_spec harrived).1]
    exact ih

def takesSends (w : World) : Label → Prop
  | .run tid choice => ∀ f ∈ w.runs (.run tid choice : Label),
      f = .base (.send .flushPendingSendQueue) → choice.accepted = true
  | .spawn _ => True

instance (w : World) : (l : Label) → Decidable (takesSends w l)
  | .run _ _ => inferInstanceAs (Decidable (∀ f ∈ (_ : Option _), _ → _))
  | .spawn _ => .isTrue trivial

theorem takesSends_session {l : Label} {l' : Duplex.Label} (h : takesSends w l)
    (hfollows : (handlers codec).simulation.Follows l l') :
    Duplex.takesSends (w.session codec) l' := by
  cases hfollows with
  | spawn event => trivial
  | @run choice choice' tid hagrees =>
    obtain ⟨call, rfl⟩ := hagrees
    intro f hf hflush
    rw [show (w.session codec).runs _ = _ from (handlers codec).runs_state w tid choice _] at hf
    obtain ⟨g, hg, rfl⟩ := Option.map_eq_some_iff.mp hf
    cases g with
    | base g => exact h _ hg (congrArg Layered.base hflush)
    | code c => cases hflush

end FastPort.Sessions.Rio.Server
