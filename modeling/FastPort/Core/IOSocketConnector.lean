import FastPort.Foundation.Stack
import FastPort.Sessions.IOSession

/-! `IOSocketConnector`: `Connect` and `ConnectEx` up to their return, with what
`DisConnect` sets going when one of their calls fails. The session runs as it does in
`IOSession`; its `OnDisconnected` is user code that calls the one of `OutboundSession`. Each
section under `m_StateMutex` is one step. -/
namespace FastPort.Core.Connect

open FastPort.Commons FastPort.Foundation.Pool FastPort.Foundation.Stack
open FastPort.Foundation.Transition
open FastPort.Sessions (Effect SocketState)

/-- The members of `IOSocketConnector` but for `m_pSocket`: that is the object which the
session is made with. -/
structure IOSocketConnector where
  session : Bool
  weakSession : Bool
  lifecycleHold : Bool
  connectExPointer : Bool
deriving DecidableEq

/-- `made` is whether the factory has produced the session; `outbound` is that session, with
the observer that `OutboundSession` adds, and `result` is what `Connect` has returned. -/
structure Shared extends IOSocketConnector where
  made : Bool
  outbound : Sessions.Shared
  disconnectObserver : Bool
  started : Bool
  result : Option Bool

/-- The connector that `Create` makes; the session is as its constructor leaves it. -/
def Shared.initial (receiveBuffer sendBuffer : CircleBufferQueue) : Shared where
  session := false
  weakSession := false
  lifecycleHold := false
  connectExPointer := false
  made := false
  outbound := .initial receiveBuffer sendBuffer .closed
  disconnectObserver := false
  started := false
  result := none

inductive ConnectPc where
  | createSocket
  | bind
  | createSession
  | hold
  | setObservers
  | associate
  | wsaIoctl
  | done (result : Bool)
deriving DecidableEq, Repr

inductive ConnectExPc where
  | checkPointer
  | addOutstanding
  | setPending
  | connectEx
  | clearPending
  | undo
deriving DecidableEq, Repr

/-- The `OnDisconnected` of the class that the user derives: its own code may stand before
and after the call of `OutboundSession::OnDisconnected`. -/
inductive OnDisconnectedPc where
  | before
  | base
  | after
deriving DecidableEq, Repr

inductive Frame where
  | connect (pc : ConnectPc)
  | connectEx (pc : ConnectExPc)
  | disConnect
  | session (frame : Sessions.Frame)
  | onDisconnected (pc : OnDisconnectedPc)
  | releaseSessionAfterDisconnect

/-- A false return of `Connect` after `DisConnect`. -/
def fails : List Frame := [.disConnect, .connect (.done false)]

/-- `accepted` is whether the call of the step goes through: `WSASocket`, `bind`, the
factory, `Associate`, `WSAIoctl`, `ConnectEx`. `WSAIoctl` may go through and leave a null
pointer. `held` is whether anybody but the connector owns the session. -/
structure Choice extends Sessions.Choice where
  pointer : Bool
  held : Bool
deriving DecidableEq

def Shared.setSocket (s : Shared) (socket : SocketState) : Shared :=
  { s with outbound.socket := socket }

/-- `ioService` is whether the service of the connector is an `IOService`. -/
def connect (ioService : Bool) (choice : Choice) (s : Shared) : ConnectPc → Shared × List Frame
  | .createSocket =>
      (s.setSocket (if choice.accepted then .opened else .closed), [.connect .bind])
  | .bind =>
      if s.outbound.posts choice.toChoice then (s, [.connect .createSession])
      else (s.setSocket .closed, fails)
  | .createSession =>
      if choice.accepted then ({ s with made := true, session := true }, [.connect .hold])
      else (s.setSocket .closed, [.connect (.done false)])
  | .hold => ({ s with weakSession := true, lifecycleHold := true }, [.connect .setObservers])
  | .setObservers =>
      ({ s with disconnectObserver := true },
        [.connect (if ioService then .associate else .wsaIoctl)])
  | .associate => if choice.accepted then (s, [.connect .wsaIoctl]) else (s, fails)
  | .wsaIoctl =>
      if choice.accepted then
        ({ s with connectExPointer := choice.pointer }, [.connectEx .checkPointer])
      else (s, fails)
  | .done result => ({ s with result := some result }, [])

/-- `ConnectEx` goes through when it succeeds at once or is pending. -/
def connectEx (choice : Choice) (s : Shared) : ConnectExPc → Shared × List Frame
  | .checkPointer => (s, if s.connectExPointer then [.connectEx .addOutstanding] else fails)
  | .addOutstanding =>
      ({ s with outbound.outstandingIoCount := s.outbound.outstandingIoCount + 1 },
        [.connectEx .setPending])
  | .setPending => ({ s with outbound.connectIoPending := true }, [.connectEx .connectEx])
  | .connectEx =>
      if s.outbound.posts choice.toChoice then
        ({ s with outbound.connects := s.outbound.connects + 1 }, [.connect (.done true)])
      else (s, [.connectEx .clearPending])
  | .clearPending => ({ s with outbound.connectIoPending := false }, [.connectEx .undo])
  | .undo =>
      ({ s with outbound.outstandingIoCount := s.outbound.outstandingIoCount - 1 }, fails)

def Shared.expired (s : Shared) (held : Bool) : Bool := !(s.weakSession && (s.session || held))

def Shared.hasTrackedSession (s : Shared) (held : Bool) : Bool := s.session || !s.expired held

def disConnect (choice : Choice) (s : Shared) : Shared × List Frame :=
  if !s.session && s.expired choice.held then (s, [])
  else (s, [.session (.requestDisconnect .claim)])

def ofSession : Sessions.Frame → Frame
  | .callback .onDisconnected => .onDisconnected .before
  | frame => .session frame

def runSession (choice : Choice) (s : Shared) (frame : Sessions.Frame) : Shared × List Frame :=
  let after := frame.exec choice.toChoice s.outbound
  ({ s with outbound := after.1 }, after.2.map ofSession)

def onDisconnected (choice : Choice) (s : Shared) : OnDisconnectedPc → Shared × List Frame
  | .before =>
      (s, match choice.call with
        | some call => [.session call.frame, .onDisconnected .before]
        | none => [.onDisconnected .base])
  | .base =>
      (s, if s.disconnectObserver then [.releaseSessionAfterDisconnect, .onDisconnected .after]
        else [.onDisconnected .after])
  | .after =>
      (s, match choice.call with
        | some call => [.session call.frame, .onDisconnected .after]
        | none => [])

/-- `Create` owns the connector while `Connect` runs, so the observer finds it. -/
def releaseSessionAfterDisconnect (s : Shared) : Shared × List Frame :=
  ({ s with session := false, weakSession := false, lifecycleHold := false }, [])

def Frame.exec (ioService : Bool) (choice : Choice) (s : Shared) : Frame → Shared × List Frame
  | connect pc => Connect.connect ioService choice s pc
  | connectEx pc => Connect.connectEx choice s pc
  | disConnect => Connect.disConnect choice s
  | session frame => runSession choice s frame
  | onDisconnected pc => Connect.onDisconnected choice s pc
  | releaseSessionAfterDisconnect => Connect.releaseSessionAfterDisconnect s

/-- `Create` calls `Connect`, once. -/
inductive Event where
  | create
deriving DecidableEq, Repr

def Shared.arrive (s : Shared) : Event → Option (Shared × List Frame)
  | .create =>
      if s.started then none else some ({ s with started := true }, [.connect .createSocket])

def program (ioService : Bool) : Program Shared Frame Choice Event where
  start s := ∃ receiveBuffer sendBuffer, s = Shared.initial receiveBuffer sendBuffer
  exec choice s f := f.exec ioService choice s
  arrive event s := s.arrive event

abbrev World := Stacks Shared Frame

abbrev Label := Move Choice Event

def system (ioService : Bool) : System World Label := (program ioService).system

/-- What is left when `Connect` has failed, whoever else owned the session. -/
structure LeavesNothing (s : Shared) : Prop where
  closed : s.outbound.socket = .closed
  untracked : ∀ held, s.hasTrackedSession held = false
  released : s.lifecycleHold = false
  idle : s.outbound.outstandingIoCount = 0
  onDisconnected : s.outbound.log.count .onDisconnected = if s.made then 1 else 0

variable {s : Shared}

structure Unmade (s : Shared) : Prop where
  running : s.result = none
  made : s.made = false
  session : s.session = false
  weakSession : s.weakSession = false
  lifecycleHold : s.lifecycleHold = false
  observed : s.disconnectObserver = false
  requested : s.outbound.disconnectRequested = false
  fired : s.outbound.onDisconnectedFired = false
  idle : s.outbound.outstandingIoCount = 0
  quiet : s.outbound.log.count .onDisconnected = 0
  socket : s.outbound.socket ≠ .null

structure Ready (observed : Bool) (outstanding : Int) (s : Shared) : Prop where
  running : s.result = none
  made : s.made = true
  session : s.session = true
  observed : s.disconnectObserver = observed
  requested : s.outbound.disconnectRequested = false
  fired : s.outbound.onDisconnectedFired = false
  outstanding : s.outbound.outstandingIoCount = outstanding
  quiet : s.outbound.log.count .onDisconnected = 0
  socket : s.outbound.socket ≠ .null

structure Requested (fired : Bool) (calls : Nat) (s : Shared) : Prop where
  running : s.result = none
  made : s.made = true
  observed : s.disconnectObserver = true
  requested : s.outbound.disconnectRequested = true
  fired : s.outbound.onDisconnectedFired = fired
  idle : s.outbound.outstandingIoCount = 0
  calls : s.outbound.log.count .onDisconnected = calls

inductive Inert : Frame → Prop where
  | call (call : Sessions.ApiCall) : Inert (.session call.frame)
  | loadOutstanding : Inert (.session (.requestDisconnect .loadOutstanding))
  | tryFire : Inert (.session (.tryFireOnDisconnected .claim))

theorem Inert.exec {f : Frame} {calls : Nat} (hf : Inert f) (h : Requested true calls s)
    (ioService : Bool) (choice : Choice) :
    ∃ fs, f.exec ioService choice s = (s, fs) ∧ ∀ g ∈ fs, Inert g := by
  have hrequested := h.requested
  have hfired := h.fired
  have hidle := h.idle
  cases hf with
  | call call =>
    cases call with
    | requestDisconnect =>
      refine ⟨[.session (.requestDisconnect .loadOutstanding)], ?_, ?_⟩
      · simp [Frame.exec, runSession, Sessions.ApiCall.frame, Sessions.Frame.exec,
          Sessions.requestDisconnect, Sessions.requestDisconnectClaim, hrequested, ofSession]
      · simp [Inert.loadOutstanding]
    | sendMessage m =>
      refine ⟨[], ?_, by simp⟩
      simp [Frame.exec, runSession, Sessions.ApiCall.frame, Sessions.Frame.exec,
        Sessions.sendMessage, hrequested]
    | startReceiveLoop =>
      refine ⟨[], ?_, by simp⟩
      simp [Frame.exec, runSession, Sessions.ApiCall.frame, Sessions.Frame.exec,
        Sessions.startReceiveLoop, hrequested]
    | requestReceived =>
      refine ⟨[], ?_, by simp⟩
      simp [Frame.exec, runSession, Sessions.ApiCall.frame, Sessions.Frame.exec,
        Sessions.requestReceived, hrequested]
  | loadOutstanding =>
    refine ⟨[.session (.tryFireOnDisconnected .claim)], ?_, ?_⟩
    · simp [Frame.exec, runSession, Sessions.Frame.exec, Sessions.requestDisconnect, hidle,
        ofSession]
    · simp [Inert.tryFire]
  | tryFire =>
    refine ⟨[], ?_, by simp⟩
    simp [Frame.exec, runSession, Sessions.Frame.exec, Sessions.tryFireOnDisconnected, hfired]

/-- How far `Connect` has got, by the stack of its thread. -/
inductive Stage (s : Shared) : List Frame → Prop where
  | starting (pc : ConnectPc) (hpc : pc = .createSocket ∨ pc = .bind ∨ pc = .createSession)
      (h : Unmade s) : Stage s [.connect pc]
  | holding (pc : ConnectPc) (hpc : pc = .hold ∨ pc = .setObservers) (h : Ready false 0 s) :
      Stage s [.connect pc]
  | connecting (pc : ConnectPc) (hpc : pc = .associate ∨ pc = .wsaIoctl) (h : Ready true 0 s) :
      Stage s [.connect pc]
  | posting (pc : ConnectExPc) (hpc : pc = .checkPointer ∨ pc = .addOutstanding)
      (h : Ready true 0 s) : Stage s [.connectEx pc]
  | posted (pc : ConnectExPc) (hpc : pc ≠ .checkPointer ∧ pc ≠ .addOutstanding)
      (h : Ready true 1 s) : Stage s [.connectEx pc]
  | failing (h : Unmade s ∧ s.outbound.socket = .closed ∨ Ready true 0 s) : Stage s fails
  | requests (h : Ready true 0 s) :
      Stage s [.session (.requestDisconnect .claim), .connect (.done false)]
  | closes (pc : Sessions.RequestDisconnectPc) (hpc : pc = .shutdown ∨ pc = .close)
      (h : Requested false 0 s) :
      Stage s [.session (.requestDisconnect pc), .connect (.done false)]
  | releases (pc : Sessions.RequestDisconnectPc)
      (hpc : pc = .releaseRecv ∨ pc = .releaseSend ∨ pc = .loadOutstanding)
      (h : Requested false 0 s) (hclosed : s.outbound.socket = .closed) :
      Stage s [.session (.requestDisconnect pc), .connect (.done false)]
  | fires (h : Requested false 0 s) (hclosed : s.outbound.socket = .closed) :
      Stage s [.session (.tryFireOnDisconnected .claim), .connect (.done false)]
  | clears (pc : Sessions.TryFirePc) (hpc : pc ≠ .claim) (h : Requested true 0 s)
      (hclosed : s.outbound.socket = .closed) :
      Stage s [.session (.tryFireOnDisconnected pc), .connect (.done false)]
  | notifies (user : List Frame) (huser : ∀ f ∈ user, Inert f) (pc : OnDisconnectedPc)
      (hpc : pc = .before ∨ pc = .base) (h : Requested true 1 s)
      (hclosed : s.outbound.socket = .closed) :
      Stage s (user ++ [.onDisconnected pc, .connect (.done false)])
  | observes (h : Requested true 1 s) (hclosed : s.outbound.socket = .closed) :
      Stage s [.releaseSessionAfterDisconnect, .onDisconnected .after, .connect (.done false)]
  | leaves (user : List Frame) (huser : ∀ f ∈ user, Inert f) (h : Requested true 1 s)
      (hleft : LeavesNothing s) :
      Stage s (user ++ [.onDisconnected .after, .connect (.done false)])
  | done (result : Bool) (hrunning : s.result = none) (h : result = false → LeavesNothing s) :
      Stage s [.connect (.done result)]
  | returned (h : s.result = some false → LeavesNothing s) : Stage s []

theorem Unmade.leavesNothing (h : Unmade s) (hclosed : s.outbound.socket = .closed) :
    LeavesNothing s where
  closed := hclosed
  untracked held := by simp [Shared.hasTrackedSession, Shared.expired, h.session, h.weakSession]
  released := h.lifecycleHold
  idle := h.idle
  onDisconnected := by simp [h.quiet, h.made]

theorem Requested.leavesNothing {s' : Shared} (h : Requested true 1 s)
    (hclosed : s.outbound.socket = .closed)
    (hs' : s' = { s with session := false, weakSession := false, lifecycleHold := false }) :
    LeavesNothing s' := by
  subst hs'
  refine ⟨hclosed, fun held => ?_, rfl, h.idle, ?_⟩
  · simp [Shared.hasTrackedSession, Shared.expired]
  · simp [h.calls, h.made]

theorem Stage.user {f : Frame} {rest below : List Frame} {user : List Frame}
    (huser : ∀ g ∈ user, Inert g) (h : Requested true 1 s) (ioService : Bool) (choice : Choice)
    (hstage : ∀ user, (∀ g ∈ user, Inert g) → Stage s (user ++ below))
    (hstack : f :: rest = user ++ below) (hne : user ≠ []) :
    Stage (f.exec ioService choice s).1 ((f.exec ioService choice s).2 ++ rest) := by
  obtain ⟨g, user, rfl⟩ := List.exists_cons_of_ne_nil hne
  rw [List.cons_append, List.cons.injEq] at hstack
  obtain ⟨rfl, rfl⟩ := hstack
  obtain ⟨fs, hexec, hfs⟩ := (huser f List.mem_cons_self).exec h ioService choice
  rw [hexec, ← List.append_assoc]
  apply hstage
  intro g hg
  rcases List.mem_append.mp hg with hnew | hold
  · exact hfs g hnew
  · exact huser g (List.mem_cons_of_mem _ hold)

theorem Unmade.connect {pc : ConnectPc} (h : Unmade s)
    (hpc : pc = .createSocket ∨ pc = .bind ∨ pc = .createSession) (ioService : Bool)
    (choice : Choice) : Stage (Connect.connect ioService choice s pc).1
      (Connect.connect ioService choice s pc).2 := by
  have hclosed : Unmade (s.setSocket .closed) := { h with socket := by simp [Shared.setSocket] }
  rcases hpc with rfl | rfl | rfl
  · refine .starting .bind (.inr (.inl rfl)) { h with socket := ?_ }
    change (if choice.accepted then SocketState.opened else .closed) ≠ .null
    cases choice.accepted <;> decide
  · by_cases hposts : s.outbound.posts choice.toChoice = true
    · simp only [Connect.connect, hposts, if_true]
      exact .starting .createSession (.inr (.inr rfl)) h
    · simp only [Connect.connect, hposts]
      exact .failing (.inl ⟨hclosed, rfl⟩)
  · by_cases haccepted : choice.accepted = true
    · simp only [Connect.connect, haccepted, if_true]
      exact .holding .hold (.inl rfl)
        { h with made := rfl, session := rfl, outstanding := h.idle }
    · simp only [Connect.connect, haccepted]
      exact .done false h.running fun _ => hclosed.leavesNothing rfl

theorem Ready.connect {pc : ConnectPc} (h : Ready true 0 s)
    (hpc : pc = .associate ∨ pc = .wsaIoctl) (ioService : Bool) (choice : Choice) :
    Stage (Connect.connect ioService choice s pc).1
      (Connect.connect ioService choice s pc).2 := by
  by_cases haccepted : choice.accepted = true
  · rcases hpc with rfl | rfl
    · simp only [Connect.connect, haccepted, if_true]
      exact .connecting .wsaIoctl (.inr rfl) h
    · simp only [Connect.connect, haccepted, if_true]
      exact .posting .checkPointer (.inl rfl) { h with }
  · rcases hpc with rfl | rfl
    · simp only [Connect.connect, haccepted]
      exact .failing (.inr h)
    · simp only [Connect.connect, haccepted]
      exact .failing (.inr h)

theorem Ready.connectEx {pc : ConnectExPc} (h : Ready true 0 s)
    (hpc : pc = .checkPointer ∨ pc = .addOutstanding) (choice : Choice) :
    Stage (Connect.connectEx choice s pc).1 (Connect.connectEx choice s pc).2 := by
  rcases hpc with rfl | rfl
  · simp only [Connect.connectEx]
    split
    · exact .posting .addOutstanding (.inr rfl) h
    · exact .failing (.inr h)
  · exact .posted .setPending (by decide)
      { h with outstanding := by simp [Connect.connectEx, h.outstanding] }

theorem Ready.posted {pc : ConnectExPc} (h : Ready true 1 s)
    (hpc : pc ≠ .checkPointer ∧ pc ≠ .addOutstanding) (choice : Choice) :
    Stage (Connect.connectEx choice s pc).1 (Connect.connectEx choice s pc).2 := by
  cases pc with
  | checkPointer => exact absurd rfl hpc.1
  | addOutstanding => exact absurd rfl hpc.2
  | setPending => exact .posted .connectEx (by decide) { h with }
  | connectEx =>
    simp only [Connect.connectEx]
    split
    · exact .done true h.running fun hfalse => nomatch hfalse
    · exact .posted .clearPending (by decide) h
  | clearPending => exact .posted .undo (by decide) { h with }
  | undo =>
    exact .failing (.inr { h with outstanding := by simp [Connect.connectEx, h.outstanding] })

theorem Ready.requestDisconnect (h : Ready true 0 s) (choice : Choice) :
    Stage (runSession choice s (.requestDisconnect .claim)).1
      ((runSession choice s (.requestDisconnect .claim)).2 ++ [.connect (.done false)]) := by
  simp only [runSession, Sessions.Frame.exec, Sessions.requestDisconnect,
    Sessions.requestDisconnectClaim, h.requested, h.socket, if_false, Bool.false_eq_true]
  exact .closes .shutdown (.inl rfl)
    { h with requested := rfl, idle := h.outstanding, calls := h.quiet }

theorem Requested.requestDisconnect {pc : Sessions.RequestDisconnectPc} (h : Requested false 0 s)
    (hpc : pc = .shutdown ∨ pc = .close) (choice : Choice) :
    Stage (runSession choice s (.requestDisconnect pc)).1
      ((runSession choice s (.requestDisconnect pc)).2 ++ [.connect (.done false)]) := by
  rcases hpc with rfl | rfl
  · refine .closes .close (.inr rfl) { h with calls := ?_ }
    simp [runSession, Sessions.Frame.exec, Sessions.requestDisconnect, h.calls]
  · refine .releases .releaseRecv (.inl rfl) { h with calls := ?_ } rfl
    simp [runSession, Sessions.Frame.exec, Sessions.requestDisconnect, h.calls]

theorem Requested.loadOutstanding {pc : Sessions.RequestDisconnectPc} (h : Requested false 0 s)
    (hpc : pc = .releaseRecv ∨ pc = .releaseSend ∨ pc = .loadOutstanding)
    (hclosed : s.outbound.socket = .closed) (choice : Choice) :
    Stage (runSession choice s (.requestDisconnect pc)).1
      ((runSession choice s (.requestDisconnect pc)).2 ++ [.connect (.done false)]) := by
  rcases hpc with rfl | rfl | rfl
  · exact .releases .releaseSend (.inr (.inl rfl)) { h with } hclosed
  · exact .releases .loadOutstanding (.inr (.inr rfl)) { h with } hclosed
  · simp only [runSession, Sessions.Frame.exec, Sessions.requestDisconnect, h.idle, if_true]
    exact .fires { h with } hclosed

theorem Requested.tryFire (h : Requested false 0 s) (hclosed : s.outbound.socket = .closed)
    (choice : Choice) : Stage (runSession choice s (.tryFireOnDisconnected .claim)).1
      ((runSession choice s (.tryFireOnDisconnected .claim)).2 ++ [.connect (.done false)]) := by
  simp only [runSession, Sessions.Frame.exec, Sessions.tryFireOnDisconnected, h.fired,
    Bool.false_eq_true, if_false]
  exact .clears .clearReceive (by simp) { h with fired := rfl } hclosed

theorem Requested.clear {pc : Sessions.TryFirePc} (h : Requested true 0 s) (hpc : pc ≠ .claim)
    (hclosed : s.outbound.socket = .closed) (choice : Choice) :
    Stage (runSession choice s (.tryFireOnDisconnected pc)).1
      ((runSession choice s (.tryFireOnDisconnected pc)).2 ++ [.connect (.done false)]) := by
  cases pc with
  | claim => exact absurd rfl hpc
  | clearReceive => exact .clears .clearSend (by simp) { h with } hclosed
  | clearSend => exact .clears .onDisconnected (by simp) { h with } hclosed
  | onDisconnected =>
    refine .notifies [] (by simp) .before (.inl rfl) { h with calls := ?_ } hclosed
    simp [runSession, Sessions.Frame.exec, Sessions.tryFireOnDisconnected, h.calls]

theorem Requested.onDisconnected {pc : OnDisconnectedPc} (h : Requested true 1 s)
    (hpc : pc = .before ∨ pc = .base) (hclosed : s.outbound.socket = .closed) (choice : Choice) :
    Stage (Connect.onDisconnected choice s pc).1
      ((Connect.onDisconnected choice s pc).2 ++ [.connect (.done false)]) := by
  rcases hpc with rfl | rfl
  · cases hcall : choice.call with
    | none =>
      simp only [Connect.onDisconnected, hcall]
      exact .notifies [] (by simp) .base (.inr rfl) h hclosed
    | some call =>
      simp only [Connect.onDisconnected, hcall]
      exact .notifies [.session call.frame] (by simp [Inert.call]) .before (.inl rfl) h hclosed
  · simp only [Connect.onDisconnected, h.observed, if_true]
    exact .observes h hclosed

theorem Requested.leaves (h : Requested true 1 s) (hleft : LeavesNothing s) (choice : Choice) :
    Stage (Connect.onDisconnected choice s .after).1
      ((Connect.onDisconnected choice s .after).2 ++ [.connect (.done false)]) := by
  cases hcall : choice.call with
  | none =>
    simp only [Connect.onDisconnected, hcall]
    exact .done false h.running fun _ => hleft
  | some call =>
    simp only [Connect.onDisconnected, hcall]
    exact .leaves [.session call.frame] (by simp [Inert.call]) h hleft

theorem Stage.disConnect (h : Unmade s ∧ s.outbound.socket = .closed ∨ Ready true 0 s)
    (choice : Choice) : Stage (Connect.disConnect choice s).1
      ((Connect.disConnect choice s).2 ++ [.connect (.done false)]) := by
  rcases h with ⟨hunmade, hclosed⟩ | hready
  · simp only [Connect.disConnect, Shared.expired, hunmade.session, hunmade.weakSession,
      Bool.not_false, Bool.false_and, Bool.and_self, if_true]
    exact .done false hunmade.running fun _ => hunmade.leavesNothing hclosed
  · simp only [Connect.disConnect, hready.session, Bool.not_true, Bool.false_and,
      Bool.false_eq_true, if_false]
    exact .requests hready

theorem Stage.exec {f : Frame} {rest : List Frame} (h : Stage s (f :: rest)) (ioService : Bool)
    (choice : Choice) :
    Stage (f.exec ioService choice s).1 ((f.exec ioService choice s).2 ++ rest) := by
  generalize hstack : f :: rest = stack at h
  cases h with
  | starting pc hpc h =>
    cases hstack
    rw [List.append_nil]
    exact h.connect hpc ioService choice
  | holding pc hpc h =>
    cases hstack
    rcases hpc with rfl | rfl
    · exact .holding .setObservers (.inr rfl) { h with }
    · cases ioService with
      | true => exact .connecting .associate (.inl rfl) { h with observed := rfl }
      | false => exact .connecting .wsaIoctl (.inr rfl) { h with observed := rfl }
  | connecting pc hpc h =>
    cases hstack
    rw [List.append_nil]
    exact h.connect hpc ioService choice
  | posting pc hpc h =>
    cases hstack
    rw [List.append_nil]
    exact h.connectEx hpc choice
  | posted pc hpc h =>
    cases hstack
    rw [List.append_nil]
    exact h.posted hpc choice
  | failing h =>
    cases hstack
    exact .disConnect h choice
  | requests h =>
    cases hstack
    exact h.requestDisconnect choice
  | closes pc hpc h =>
    cases hstack
    exact h.requestDisconnect hpc choice
  | releases pc hpc h hclosed =>
    cases hstack
    exact h.loadOutstanding hpc hclosed choice
  | fires h hclosed =>
    cases hstack
    exact h.tryFire hclosed choice
  | clears pc hpc h hclosed =>
    cases hstack
    exact h.clear hpc hclosed choice
  | notifies user huser pc hpc h hclosed =>
    cases user with
    | nil =>
      cases hstack
      exact h.onDisconnected hpc hclosed choice
    | cons g user =>
      refine Stage.user huser h ioService choice (fun user huser => ?_) hstack (by simp)
      exact .notifies user huser pc hpc h hclosed
  | observes h hclosed =>
    cases hstack
    exact .leaves [] (by simp) { h with } (h.leavesNothing hclosed rfl)
  | leaves user huser h hleft =>
    cases user with
    | nil =>
      cases hstack
      exact h.leaves hleft choice
    | cons g user =>
      refine Stage.user huser h ioService choice (fun user huser => ?_) hstack (by simp)
      exact .leaves user huser h hleft
  | done result hrunning h =>
    cases hstack
    refine .returned fun hfalse => ?_
    have hresult : result = false := by simpa [Frame.exec, Connect.connect] using hfalse
    exact { h hresult with }
  | returned h => cases hstack

theorem Stage.leavesNothing (h : Stage s []) (hfailed : s.result = some false) :
    LeavesNothing s := by
  generalize hstack : [] = stack at h
  cases h with
  | returned h => exact h hfailed
  | notifies user | leaves user => simp at hstack
  | _ => cases hstack

theorem Stage.running {f : Frame} {rest : List Frame} (h : Stage s (f :: rest)) :
    s.result = none := by
  generalize hstack : f :: rest = stack at h
  cases h with
  | failing h => exact h.elim (fun h => h.1.running) fun h => h.running
  | done result hrunning h => exact hrunning
  | returned h => cases hstack
  | starting _ _ h | holding _ _ h | connecting _ _ h | posting _ _ h | posted _ _ h | requests h
  | closes _ _ h | releases _ _ h | fires h | clears _ _ h | notifies _ _ _ _ h | observes h
  | leaves _ _ h => exact h.running

def OneThread (w : World) : Prop :=
  (w.threads = [] ∧ w.shared.started = false ∧ Unmade w.shared) ∨
    (w.shared.started = true ∧ ∃ stack, w.threads = [stack] ∧ Stage w.shared stack)

theorem exec_started (f : Frame) (ioService : Bool) (choice : Choice) (s : Shared) :
    (f.exec ioService choice s).1.started = s.started := by
  cases f with
  | connect pc =>
    cases pc with
    | createSocket | hold | setObservers | done => rfl
    | bind | createSession | associate | wsaIoctl =>
      simp only [Frame.exec, Connect.connect]
      split
      · rfl
      · rfl
  | connectEx pc =>
    cases pc with
    | connectEx =>
      simp only [Frame.exec, Connect.connectEx]
      split
      · rfl
      · rfl
    | _ => rfl
  | disConnect =>
    simp only [Frame.exec, Connect.disConnect]
    split
    · rfl
    · rfl
  | onDisconnected pc => cases pc <;> rfl
  | session | releaseSessionAfterDisconnect => rfl

theorem oneThread {ioService : Bool} {ok : World → Label → Prop} {w : World}
    (hw : (system ioService).Reach ok w) : OneThread w := by
  apply Program.invariant (p := program ioService) (I := OneThread) ?_ ?_ ?_ hw
  · rintro s ⟨receiveBuffer, sendBuffer, rfl⟩
    refine .inl ⟨rfl, rfl, ⟨rfl, rfl, rfl, rfl, rfl, rfl, rfl, rfl, rfl, rfl, ?_⟩⟩
    simp [Shared.initial, Sessions.Shared.initial]
  · rintro w tid choice f rest - hone - hthread
    rcases hone with ⟨hnone, -⟩ | ⟨hstarted, stack, hthreads, hstage⟩
    · simp [hnone] at hthread
    · rw [hthreads] at hthread ⊢
      obtain ⟨hlt, hget⟩ := List.getElem?_eq_some_iff.mp hthread
      obtain rfl : tid = 0 := Nat.lt_one_iff.mp hlt
      obtain rfl : stack = f :: rest := hget
      exact .inr ⟨(exec_started f ioService choice w.shared).trans hstarted, _, rfl,
        hstage.exec ioService choice⟩
  · rintro w ⟨⟩ s' fs - hone - harrived
    obtain ⟨hstarted, heq⟩ := Option.ite_none_left_eq_some.mp harrived
    cases heq
    rcases hone with ⟨hnone, -, hunmade⟩ | ⟨hstarted', -⟩
    · rw [hnone]
      exact .inr ⟨rfl, _, rfl, .starting .createSocket (.inl rfl) { hunmade with }⟩
    · exact absurd hstarted' hstarted

/-- A `Connect` that fails leaves nothing behind. -/
theorem failed_connect_leaves_nothing {ioService : Bool} {w : World}
    (hw : (system ioService).Reach System.free w) (hfailed : w.shared.result = some false) :
    LeavesNothing w.shared := by
  rcases oneThread hw with ⟨-, -, hunmade⟩ | ⟨-, stack, -, hstage⟩
  · rw [hunmade.running] at hfailed
    cases hfailed
  · cases stack with
    | nil => exact hstage.leavesNothing hfailed
    | cons f rest =>
      rw [hstage.running] at hfailed
      cases hfailed

def unconnected : World :=
  ⟨Shared.initial (CircleBufferQueue.create 8) (CircleBufferQueue.create 8), []⟩

/-- `ConnectEx` is refused at once; the user's `OnDisconnected` asks to disconnect once more. -/
def connectExRefused : List Label :=
  let goes : Choice := ⟨⟨true, 0, none⟩, true, false⟩
  let refused : Choice := ⟨⟨false, 0, none⟩, true, false⟩
  let asks : Choice := ⟨⟨true, 0, some .requestDisconnect⟩, true, false⟩
  [.spawn .create] ++ List.replicate 10 (.run 0 goes) ++ List.replicate 14 (.run 0 refused) ++
    [.run 0 asks] ++ List.replicate 8 (.run 0 goes)

theorem failed_connect_leaves_nothing_connectExRefused :
    ∃ w, (system true).runUnder System.free unconnected connectExRefused = some w ∧
      decide (w.shared.made = true ∧ w.shared.result = some false) = true ∧
        LeavesNothing w.shared := by
  obtain ⟨w, hrun, htest⟩ := System.exists_of_runUnder (system true) System.free unconnected
    connectExRefused (fun w => decide (w.shared.made = true ∧ w.shared.result = some false))
    (by decide +kernel)
  have hinit : (system true).init unconnected := ⟨⟨_, _, rfl⟩, rfl⟩
  have hw : (system true).Reach System.free w := .of_runUnder (.init hinit) hrun
  exact ⟨w, hrun, htest, failed_connect_leaves_nothing hw (of_decide_eq_true htest).2⟩

end FastPort.Core.Connect
