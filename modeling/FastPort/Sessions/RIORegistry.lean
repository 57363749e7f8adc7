import FastPort.Sessions.RIOSteps
import Mathlib.Logic.Function.Basic

/-! The `SessionContainer` of the RIO server. The acceptor's threads create a session,
start its first receive and only then register it; the workers that handle its
completions take it off the container when they call `OnDisconnected`. -/
namespace FastPort.Sessions.Rio.Registry

open FastPort.Commons FastPort.Foundation.Pool FastPort.Foundation.Stack FastPort.Foundation.Tally
open FastPort.Foundation.Transition

/-- What a new session is made of: the slices that the pool had left, with their memory,
and whether `RIOCreateRequestQueue` goes through. -/
structure Resources where
  recvSlice : RioBufferSlice
  sendSlice : RioBufferSlice
  recvMemory : List Byte
  sendMemory : List Byte
  requestQueue : Bool
  recvMemory_length : recvMemory.length = recvSlice.length
  sendMemory_length : sendMemory.length = sendSlice.length

/-- A `RIOInboundSession`, and whether `m_RQ` is valid. -/
structure Session where
  shared : Duplex.Shared
  requestQueue : Bool

def Session.create (r : Resources) : Session where
  shared := Duplex.Shared.initial r.recvSlice r.sendSlice r.recvMemory r.sendMemory
  requestQueue := r.requestQueue

/-- How often each session was passed to `OnAccepted`, and taken off the container,
in all and since it was last added; no step reads these. -/
structure History where
  accepts : Nat → Nat
  removals : Nat → Nat
  lateRemovals : Nat → Nat

structure Shared extends History where
  sessions : List Session
  container : List Nat

def Shared.initial : Shared where
  accepts := fun _ => 0
  removals := fun _ => 0
  lateRemovals := fun _ => 0
  sessions := []
  container := []

/-- `m_NextSessionId` starts at 1 and is incremented by every construction. -/
def sessionId (index : Nat) : Nat := index + 1

structure Choice where
  accepted : Bool
  call : Option Message
  resources : Resources

/-- A function in progress and the step it takes next. The frames of a session are those
of `RIOSession`; only what `OnDisconnected` does is the inbound session's own. -/
inductive Frame where
  | createSession
  | initializeSession (index : Nat)
  | onAccepted (index : Nat)
  | session (index : Nat) (f : Duplex.Frame)
  | remove (index : Nat)

namespace Shared

def add (index : Nat) (s : Shared) : Shared :=
  { s with
    container :=
      if sessionId index ∈ s.container then s.container else s.container ++ [sessionId index]
    accepts := Function.update s.accepts index (s.accepts index + 1)
    lateRemovals := Function.update s.lateRemovals index 0 }

def remove (index : Nat) (s : Shared) : Shared :=
  { s with
    container := s.container.filter (· ≠ sessionId index)
    removals := Function.update s.removals index (s.removals index + 1)
    lateRemovals := Function.update s.lateRemovals index (s.lateRemovals index + 1) }

/-- How often `OnDisconnected` was invoked on a session. -/
def disconnections (index : Nat) (s : Shared) : Nat :=
  (s.sessions[index]?).elim 0 fun session => session.shared.disconnections

def created (index : Nat) (s : Shared) : Nat :=
  (List.range s.sessions.length).count index

end Shared

/-- The frames after a step of a session: `RIOInboundSession::OnDisconnected` is left with
the call of `Remove`. -/
def next (index : Nat) (fs : List Duplex.Frame) : Duplex.Frame → List Frame
  | .send .onDisconnected => [.remove index]
  | _ => fs.map (.session index)

/-- A step of a session. A request on an invalid queue fails. -/
def session (choice : Choice) (s : Shared) (index : Nat) (f : Duplex.Frame) :
    Shared × List Frame :=
  match s.sessions[index]? with
  | none => (s, [])
  | some session =>
      let r := f.exec ⟨choice.accepted && session.requestQueue, choice.call⟩ session.shared
      ({ s with sessions := s.sessions.set index { session with shared := r.1 } },
        next index r.2 f)

def Frame.exec (choice : Choice) (s : Shared) : Frame → Shared × List Frame
  | createSession =>
      ({ s with sessions := s.sessions ++ [Session.create choice.resources] },
        [initializeSession s.sessions.length, onAccepted s.sessions.length])
  | initializeSession index =>
      (s, if (s.sessions[index]?).any Session.requestQueue then
          [.session index .startReceiveLoop]
        else [])
  | onAccepted index => (s.add index, [.session index .startReceiveLoop])
  | .session index f => Registry.session choice s index f
  | remove index => (s.remove index, [])

inductive Event where
  | accept
  | session (index : Nat) (event : Duplex.Event)

/-- The environment: a connection is accepted and the acceptor's worker goes on to create
its session; something arrives at a session. -/
def Shared.arrive (s : Shared) : Event → Option (Shared × List Frame)
  | .accept => some (s, [.createSession])
  | .session _ .startReceiveLoop => none
  | .session index event =>
      match s.sessions[index]? with
      | none => none
      | some session =>
          (session.shared.arrive event).map fun r =>
            ({ s with sessions := s.sessions.set index { session with shared := r.1 } },
              r.2.map (.session index))

def program : Program Shared Frame Choice Event where
  start s := s = Shared.initial
  exec choice s f := f.exec choice s
  arrive event s := s.arrive event

abbrev World := Stacks Shared Frame
abbrev Label := Move Choice Event

def system : System World Label := program.system

def AtRest (w : World) : Prop := ∀ stack ∈ w.threads, stack.isEmpty = true

instance (w : World) : Decidable (AtRest w) :=
  inferInstanceAs (Decidable (∀ stack ∈ w.threads, stack.isEmpty = true))

/-- The container holds exactly the accepted sessions whose `OnDisconnected` was not
invoked. -/
def Exact (s : Shared) : Prop :=
  ∀ index, sessionId index ∈ s.container ↔ 0 < s.accepts index ∧ s.disconnections index = 0

/-- `Remove` is called for registered sessions only. -/
def inOrder (w : World) (l : Label) : Prop :=
  match w.runs l with
  | some (.remove index) => 0 < w.shared.accepts index
  | _ => True

instance inOrderDecidable (w : World) (l : Label) : Decidable (inOrder w l) :=
  match h : w.runs l with
  | some (.remove index) => decidable_of_iff (0 < w.shared.accepts index) (by simp [inOrder, h])
  | some .createSession => isTrue (by simp [inOrder, h])
  | some (.initializeSession _) => isTrue (by simp [inOrder, h])
  | some (.onAccepted _) => isTrue (by simp [inOrder, h])
  | some (.session _ _) => isTrue (by simp [inOrder, h])
  | none => isTrue (by simp [inOrder, h])

/-- The `OnDisconnected` that have still to take a session off the container. -/
def Frame.removing (index : Nat) : Frame → Nat
  | remove other => if other = index then 1 else 0
  | _ => 0

def Frame.accepting (index : Nat) : Frame → Nat
  | onAccepted other => if other = index then 1 else 0
  | _ => 0

variable {ok : World → Label → Prop} {w : World}

theorem tally_session {weight : Frame → Nat} (hzero : ∀ index f, weight (.session index f) = 0)
    (index : Nat) (fs : List Duplex.Frame) : tally weight (fs.map (.session index)) = 0 := by
  apply tally_eq_zero.mpr
  intro f hf
  obtain ⟨g, -, rfl⟩ := List.mem_map.mp hf
  exact hzero index g

/-- A step of a session leads to `Remove` if and only if it invokes `OnDisconnected`. -/
theorem tally_next (index other : Nat) (fs : List Duplex.Frame) (f : Duplex.Frame) :
    tally (Frame.removing other) (next index fs f) =
      if index = other then f.announcing else 0 := by
  by_cases hend : f = .send .onDisconnected
  · subst hend
    rfl
  · have hnone : f.announcing = 0 := by
      simpa using mt Duplex.Frame.announcing_pos.mp hend
    have hnext : next index fs f = fs.map (.session index) := by
      unfold next
      split
      · exact absurd rfl hend
      · rfl
    rw [hnext, hnone, tally_session (fun _ _ => rfl), ite_self]

theorem disconnections_set {s : Shared} {index : Nat} {session : Session}
    (hsession : s.sessions[index]? = some session) (shared : Duplex.Shared) (other : Nat) :
    Shared.disconnections other
        { s with sessions := s.sessions.set index { session with shared := shared } } =
      if index = other then shared.disconnections else s.disconnections other := by
  obtain ⟨hlt, -⟩ := List.getElem?_eq_some_iff.mp hsession
  simp only [Shared.disconnections, List.getElem?_set]
  by_cases hsame : index = other
  · simp [hsame, hsame ▸ hlt]
  · simp [hsame]

theorem disconnections_of_session {s : Shared} {index : Nat} {session : Session}
    (hsession : s.sessions[index]? = some session) :
    s.disconnections index = session.shared.disconnections := by
  rw [Shared.disconnections, hsession]
  rfl

theorem disconnections_session (choice : Choice) (s : Shared) (index : Nat) (f : Duplex.Frame)
    (other : Nat) :
    (Registry.session choice s index f).1.disconnections other = s.disconnections other +
      tally (Frame.removing other) (Registry.session choice s index f).2 := by
  unfold Registry.session
  cases hsession : s.sessions[index]? with
  | none => rfl
  | some session =>
    have hcount := (f.steps_exec ⟨choice.accepted && session.requestQueue, choice.call⟩
      session.shared).announcing.1
    dsimp only
    rw [disconnections_set hsession, tally_next]
    split
    · rename_i hsame
      rw [← hsame, disconnections_of_session hsession, hcount]
    · rfl

/-- What an event can do: at a session, it invokes nothing and leaves the container and
the history alone. -/
inductive Shared.Arrived (s : Shared) : Event → Shared → List Frame → Prop where
  | accept : Arrived s .accept s [.createSession]
  | session {index : Nat} {event : Duplex.Event} {session : Session} {shared : Duplex.Shared}
      {fs : List Duplex.Frame} (hsession : s.sessions[index]? = some session)
      (hcount : shared.disconnections = session.shared.disconnections) :
      Arrived s (.session index event)
        { s with sessions := s.sessions.set index { session with shared := shared } }
        (fs.map (.session index))

theorem arrived_of_arrive {s s' : Shared} {event : Event} {fs : List Frame}
    (h : s.arrive event = some (s', fs)) : s.Arrived event s' fs := by
  cases event with
  | accept =>
    cases h
    exact .accept
  | session index event =>
    have harrive : ∀ session, s.sessions[index]? = some session →
        ((session.shared.arrive event).map fun r =>
          (({ s with sessions := s.sessions.set index { session with shared := r.1 } } : Shared),
            r.2.map (Frame.session index))) = some (s', fs) →
        s.Arrived (.session index event) s' fs := by
      intro session hsession hmap
      obtain ⟨⟨shared, gs⟩, harrived, hr⟩ := Option.map_eq_some_iff.mp hmap
      cases hr
      apply Shared.Arrived.session hsession
      cases Duplex.Shared.arrived_of_arrive harrived with
      | send hsent => exact (Duplex.arrive_spec hsent).2.1
      | _ => rfl
    cases event with
    | startReceiveLoop => cases h
    | _ =>
      simp only [Shared.arrive] at h
      split at h
      · cases h
      · rename_i hsession
        exact harrive _ hsession h

/-- Every invocation of `OnDisconnected` takes the session off the container once. -/
theorem removals_eq (index : Nat) (hw : system.Reach ok w) :
    w.shared.removals index + w.weigh (Frame.removing index) = w.shared.disconnections index := by
  apply Program.balance (p := program) (fun s => s.removals index) (Shared.disconnections index)
    (Frame.removing index) ?_ ?_ ?_ hw
  · rintro s rfl
    rfl
  · intro choice s f
    change (f.exec choice s).1.removals index + tally (Frame.removing index) (f.exec choice s).2 +
      s.disconnections index =
        (f.exec choice s).1.disconnections index + (s.removals index + f.removing index)
    cases f with
    | createSession =>
      have hcount : (Frame.createSession.exec choice s).1.disconnections index =
          s.disconnections index := by
        simp only [Frame.exec, Shared.disconnections, List.getElem?_append]
        split
        · rfl
        · rename_i hnew
          rw [List.getElem?_eq_none (Nat.le_of_not_lt hnew)]
          cases hfirst : index - s.sessions.length with
          | zero => rfl
          | succ n => rfl
      rw [hcount]
      simp only [Frame.exec, tally_cons, tally_nil, Frame.removing]
      omega
    | initializeSession other =>
      simp only [Frame.exec]
      split <;> simp only [tally_cons, tally_nil, Frame.removing] <;> omega
    | onAccepted other =>
      change s.removals index + 0 + s.disconnections index =
        s.disconnections index + (s.removals index + 0)
      omega
    | session other f =>
      have hcount := disconnections_session choice s other f index
      have hsame : (Registry.session choice s other f).1.removals index = s.removals index := by
        unfold Registry.session
        split <;> rfl
      simp only [Frame.exec, Frame.removing]
      omega
    | remove other =>
      change Function.update s.removals other (s.removals other + 1) index + 0 +
        s.disconnections index = s.disconnections index + (s.removals index + _)
      simp only [Frame.removing, Function.update_apply]
      split
      · rename_i hsame
        subst hsame
        simp
        omega
      · rename_i hother
        rw [if_neg (Ne.symm hother)]
        omega
  · intro w event s' fs _ harrived
    cases arrived_of_arrive harrived with
    | accept =>
      simp only [tally_cons, tally_nil, Frame.removing]
      omega
    | @session other event session shared fs hsession hcount =>
      rw [disconnections_set hsession, tally_session (fun _ _ => rfl)]
      split
      · rename_i hsame
        subst hsame
        rw [disconnections_of_session hsession, hcount]
        simp only
        omega
      · simp only
        omega

/-- Every session is passed to `OnAccepted` once. -/
theorem accepts_eq (index : Nat) (hw : system.Reach ok w) :
    w.shared.accepts index + w.weigh (Frame.accepting index) = w.shared.created index := by
  apply Program.balance (p := program) (fun s => s.accepts index) (Shared.created index)
    (Frame.accepting index) ?_ ?_ ?_ hw
  · rintro s rfl
    rfl
  · intro choice s f
    change (f.exec choice s).1.accepts index + tally (Frame.accepting index) (f.exec choice s).2 +
      s.created index = (f.exec choice s).1.created index + (s.accepts index + f.accepting index)
    cases f with
    | createSession =>
      simp only [Frame.exec, Shared.created, List.length_append, List.length_singleton,
        List.range_succ, List.count_append, List.count_singleton, beq_iff_eq, tally_cons, tally_nil,
        Frame.accepting]
      omega
    | initializeSession other =>
      simp only [Frame.exec]
      split <;> simp only [tally_cons, tally_nil, Frame.accepting] <;> omega
    | onAccepted other =>
      change Function.update s.accepts other (s.accepts other + 1) index + 0 + s.created index =
        s.created index + (s.accepts index + _)
      simp only [Frame.accepting, Function.update_apply]
      by_cases hsame : index = other
      · subst hsame
        simp only [if_true]
        omega
      · rw [if_neg hsame, if_neg (Ne.symm hsame)]
        omega
    | session other f =>
      have hsame : (Registry.session choice s other f).1.accepts index = s.accepts index ∧
          (Registry.session choice s other f).1.sessions.length = s.sessions.length ∧
          tally (Frame.accepting index) (Registry.session choice s other f).2 = 0 := by
        unfold Registry.session
        split
        · exact ⟨rfl, rfl, rfl⟩
        · refine ⟨rfl, List.length_set, ?_⟩
          unfold next
          split
          · rfl
          · exact tally_session (fun _ _ => rfl) other _
      simp only [Frame.exec, Frame.accepting, Shared.created, hsame.1, hsame.2.1, hsame.2.2]
      omega
    | remove other =>
      simp only [Frame.exec, Shared.remove, Shared.created, tally_nil, Frame.accepting]
      omega
  · intro w event s' fs _ harrived
    cases arrived_of_arrive harrived with
    | accept =>
      simp only [tally_cons, tally_nil, Frame.accepting]
      omega
    | session hsession hcount =>
      rw [tally_session (fun _ _ => rfl)]
      simp only [Shared.created, List.length_set]
      omega

theorem sessionId_inj {index other : Nat} (h : sessionId index = sessionId other) :
    index = other :=
  Nat.succ.inj h

theorem session_container (choice : Choice) (s : Shared) (index : Nat) (f : Duplex.Frame) :
    (Registry.session choice s index f).1.container = s.container ∧
      (Registry.session choice s index f).1.toHistory = s.toHistory := by
  unfold Registry.session
  split <;> exact ⟨rfl, rfl⟩

structure Registered (s : Shared) : Prop where
  mem_iff : ∀ index, sessionId index ∈ s.container ↔
    0 < s.accepts index ∧ s.lateRemovals index = 0
  late_le : ∀ index, s.lateRemovals index ≤ s.removals index

theorem registered_add {s : Shared} (h : Registered s) (index : Nat) :
    Registered (s.add index) := by
  constructor
  · intro other
    have hmem : sessionId other ∈ (s.add index).container ↔
        other = index ∨ sessionId other ∈ s.container := by
      simp only [Shared.add]
      split
      · rename_i hthere
        constructor
        · exact .inr
        · rintro (rfl | hold)
          · exact hthere
          · exact hold
      · rw [List.mem_append, List.mem_singleton, Or.comm]
        exact or_congr ⟨sessionId_inj, congrArg sessionId⟩ Iff.rfl
    rw [hmem]
    simp only [Shared.add, Function.update_apply]
    by_cases hsame : other = index
    · simp [hsame]
    · simp [hsame, h.mem_iff]
  · intro other
    have hle := h.late_le other
    simp only [Shared.add, Function.update_apply]
    split
    · exact Nat.zero_le _
    · exact hle

theorem registered_remove {s : Shared} (h : Registered s) (index : Nat) :
    Registered (s.remove index) := by
  constructor
  · intro other
    have hmem : sessionId other ∈ (s.remove index).container ↔
        sessionId other ∈ s.container ∧ other ≠ index := by
      simp only [Shared.remove, List.mem_filter, decide_eq_true_eq]
      exact and_congr Iff.rfl (not_congr ⟨sessionId_inj, congrArg sessionId⟩)
    rw [hmem, h.mem_iff]
    simp only [Shared.remove, Function.update_apply]
    by_cases hsame : other = index
    · simp [hsame]
    · simp [hsame]
  · intro other
    have hle := h.late_le other
    simp only [Shared.remove, Function.update_apply]
    split
    · rename_i hsame
      subst hsame
      omega
    · exact hle

theorem registered (hw : system.Reach ok w) : Registered w.shared := by
  apply Program.invariant_shared (p := program) (I := Registered) ?_ ?_ ?_ hw
  · rintro s rfl
    constructor
    · intro index
      simp [Shared.initial]
    · intro index
      exact Nat.le_refl _
  · intro choice s f ih
    cases f with
    | createSession => exact ⟨ih.mem_iff, ih.late_le⟩
    | initializeSession other => exact ih
    | onAccepted other => exact registered_add ih other
    | session other f =>
      obtain ⟨hcontainer, hhistory⟩ := session_container choice s other f
      change Registered (Registry.session choice s other f).1
      constructor
      · rw [hcontainer, hhistory]
        exact ih.mem_iff
      · rw [hhistory]
        exact ih.late_le
    | remove other => exact registered_remove ih other
  · intro event s s' fs ih harrived
    cases arrived_of_arrive harrived with
    | accept => exact ih
    | session => exact ⟨ih.mem_iff, ih.late_le⟩

/-- When nobody removes what is not registered, no removal comes before the one `Add`. -/
theorem lateRemovals_eq (index : Nat) (hw : system.Reach inOrder w) :
    (w.shared.accepts index = 0 → w.shared.removals index = 0) ∧
      w.shared.lateRemovals index = w.shared.removals index := by
  apply Program.invariant (p := program) (I := fun w =>
    (w.shared.accepts index = 0 → w.shared.removals index = 0) ∧
      w.shared.lateRemovals index = w.shared.removals index) ?_ ?_ ?_ hw
  · rintro s rfl
    exact ⟨fun _ => rfl, rfl⟩
  · intro w tid choice f rest hreach ih hok hthread
    cases f with
    | createSession => exact ih
    | initializeSession other => exact ih
    | onAccepted other =>
      by_cases hsame : index = other
      · subst hsame
        have hfirst : w.shared.accepts index = 0 := by
          have hone := List.nodup_iff_count_le_one.mp
            (List.nodup_range (n := w.shared.sessions.length)) index
          have hledger := accepts_eq index hreach
          have hweight : Frame.accepting index (.onAccepted index) ≤
              w.weigh (Frame.accepting index) := Stacks.weight_le_weigh hthread
          simp only [Frame.accepting, if_true] at hweight
          rw [Shared.created] at hledger
          omega
        have hnone := ih.1 hfirst
        simp only [program, Frame.exec, Shared.add, Function.update_self]
        exact ⟨fun _ => hnone, hnone.symm⟩
      · simp only [program, Frame.exec, Shared.add, Function.update_of_ne hsame]
        exact ih
    | session other f =>
      have hhistory := (session_container choice w.shared other f).2
      change ((Registry.session choice w.shared other f).1.accepts index = 0 → _) ∧ _
      simp only [program, Frame.exec, hhistory]
      exact ih
    | remove other =>
      have hfirst : 0 < w.shared.accepts other := by
        rw [inOrder, Stacks.runs_eq hthread] at hok
        exact hok
      by_cases hsame : index = other
      · subst hsame
        simp only [program, Frame.exec, Shared.remove, Function.update_self]
        refine ⟨?_, by rw [ih.2]⟩
        intro hnone
        omega
      · simp only [program, Frame.exec, Shared.remove, Function.update_of_ne hsame]
        exact ih
  · intro w event s' fs _ ih _ harrived
    cases arrived_of_arrive harrived with
    | accept => exact ih
    | session => exact ih

/-- Whenever nobody is inside, the container is exact if and only if every session whose
`OnDisconnected` was invoked has been removed since it was added; and so it is in every
run in which only registered sessions are removed. -/
theorem registry_exact (hrest : AtRest w) :
    (system.Reach System.free w → (Exact w.shared ↔
      ∀ index, 0 < w.shared.disconnections index → 0 < w.shared.lateRemovals index)) ∧
    (system.Reach inOrder w → Exact w.shared) := by
  have hidle : ∀ weight : Frame → Nat, w.weigh weight = 0 := by
    intro weight
    apply Stacks.weigh_eq_zero.mpr
    intro stack hstack f hf
    rw [List.isEmpty_iff.mp (hrest stack hstack)] at hf
    cases hf
  have hiff : system.Reach System.free w → (Exact w.shared ↔
      ∀ index, 0 < w.shared.disconnections index → 0 < w.shared.lateRemovals index) := by
    intro hw
    have hregistered := registered hw
    -- a session that was never constructed has no history
    have haccepted : ∀ index, 0 < w.shared.disconnections index → 0 < w.shared.accepts index := by
      intro index hpos
      have hledger := accepts_eq index hw
      have hlt : index < w.shared.sessions.length := by
        by_contra hout
        rw [Shared.disconnections, List.getElem?_eq_none (Nat.le_of_not_lt hout)] at hpos
        exact absurd hpos (Nat.lt_irrefl 0)
      have hcreated := List.count_pos_iff.mpr (List.mem_range.mpr hlt)
      rw [hidle, Shared.created] at hledger
      omega
    constructor
    · intro hexact index hpos
      apply Nat.pos_of_ne_zero
      intro hnone
      have hmem := (hregistered.mem_iff index).mpr ⟨haccepted index hpos, hnone⟩
      have hzero := ((hexact index).mp hmem).2
      omega
    · intro hlate index
      rw [hregistered.mem_iff]
      have hledger := removals_eq index hw
      have hle := hregistered.late_le index
      have hpos := hlate index
      rw [hidle] at hledger
      constructor
      · rintro ⟨haccepts, hnone⟩
        exact ⟨haccepts, by omega⟩
      · rintro ⟨haccepts, hnone⟩
        exact ⟨haccepts, by omega⟩
  constructor
  · exact hiff
  · intro hw
    apply (hiff (hw.mono fun _ _ _ => trivial)).mpr
    intro index hpos
    have hledger := removals_eq index hw
    have hlate := (lateRemovals_eq index hw).2
    rw [hidle] at hledger
    omega

theorem reach_initial : system.Reach ok ⟨Shared.initial, []⟩ := .init ⟨rfl, rfl⟩

def small : Resources where
  recvSlice := ⟨0, 16, by decide⟩
  sendSlice := ⟨16, 16, by decide⟩
  recvMemory := List.replicate 16 0
  sendMemory := List.replicate 16 0
  requestQueue := true
  recvMemory_length := rfl
  sendMemory_length := rfl

def steps (tid count : Nat) : List Label :=
  List.replicate count (.run tid ⟨true, none, small⟩)

def posting : List Label := [.spawn .accept] ++ steps 0 5

/-- The peer is gone; a worker handles the completion. -/
def ending : List Label := [.spawn (.session 0 (.recvCompletion 0 false []))] ++ steps 1 4

theorem registry_exact_ending : ∃ w : World, w.shared.disconnections 0 = 1 ∧ Exact w.shared := by
  obtain ⟨w, hrun, htest⟩ := System.exists_of_runUnder system inOrder ⟨Shared.initial, []⟩
    (posting ++ steps 0 2 ++ ending)
    (fun w => decide (AtRest w ∧ w.shared.disconnections 0 = 1)) (by decide)
  obtain ⟨hrest, hcount⟩ := of_decide_eq_true htest
  have hw : system.Reach inOrder w := .of_runUnder reach_initial hrun
  exact ⟨w, hcount, (registry_exact hrest).2 hw⟩

/-- The worker is done before the acceptor adds the session. -/
theorem not_registry_exact : ¬ ∀ w : World, system.Reach System.free w → AtRest w →
    Exact w.shared := by
  intro hexact
  obtain ⟨w, hrun, htest⟩ := System.exists_of_runUnder system System.free ⟨Shared.initial, []⟩
    (posting ++ ending ++ steps 0 2)
    (fun w => decide (AtRest w ∧ w.shared.disconnections 0 = 1 ∧
      sessionId 0 ∈ w.shared.container)) (by decide)
  obtain ⟨hrest, hcount, hmem⟩ := of_decide_eq_true htest
  have hw : system.Reach System.free w := .of_runUnder reach_initial hrun
  have hzero := ((hexact w hw hrest 0).mp hmem).2
  omega

end FastPort.Sessions.Rio.Registry
