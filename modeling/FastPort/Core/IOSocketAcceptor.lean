import FastPort.Foundation.Stack
import Mathlib.Data.List.Count

/-! `IOSocketAcceptor`: the backlog of `AcceptEx` requests that `Start` posts, and the
handler of their completions, which posts the next one and deletes the old. -/
namespace FastPort.Core.Accept

open FastPort.Foundation.Pool FastPort.Foundation.Stack FastPort.Foundation.Tally
open FastPort.Foundation.Transition

inductive ENetworkMode where
  | iocp
  | rio
deriving DecidableEq, Repr

/-- What `dynamic_pointer_cast<IOService>` can find behind `m_pService`. -/
inductive NetworkService where
  | ioService
  | other
deriving DecidableEq, Repr

structure IOSocketAcceptor where
  listenerSocketMode : ENetworkMode
  service : Option NetworkService
  executed : Bool
deriving DecidableEq, Repr

structure Kernel where
  posted : List Nat
deriving DecidableEq, Repr

/-- What has happened so far: whether `Start` was called and with which count, how many
`AcceptOverlapped` were made, the deleted ones, those whose completion has been handled,
how many calls of `BeginAcceptEx` returned false, and why handlers posted nothing. No
step but the allocation reads these. -/
structure History where
  started : Bool
  backlog : Nat
  next : Nat
  deleted : List Nat
  handled : List Nat
  failed : Nat
  contextFailures : List Nat
  dropped : List Nat
  skipped : Nat
deriving DecidableEq, Repr

structure Shared extends IOSocketAcceptor, Kernel, History
deriving DecidableEq, Repr

def Shared.initial (mode : ENetworkMode) : Shared where
  listenerSocketMode := mode
  service := none
  executed := false
  posted := []
  started := false
  backlog := 0
  next := 0
  deleted := []
  handled := []
  failed := 0
  contextFailures := []
  dropped := []
  skipped := 0

inductive BeginAcceptExPc where
  | checkExecuted
  | createSocket (overlapped : Nat)
  | acceptEx (overlapped : Nat)
deriving DecidableEq, Repr

inductive OnIOCompletedPc where
  | start (success : Bool)
  | updateAcceptContext
  | createSession
  | associate
  | onAccepted
  | beginAcceptEx
  | delete
deriving DecidableEq, Repr

inductive Frame where
  | start (beginAcceptCount i : Nat)
  | beginAcceptEx (pc : BeginAcceptExPc)
  | onIOCompleted (overlapped : Nat) (pc : OnIOCompletedPc)
deriving DecidableEq, Repr

/-- `choice` is whether the Winsock call of the step goes through. `AcceptEx` goes through
when it succeeds at once or is pending. -/
def beginAcceptEx (choice : Bool) (s : Shared) : BeginAcceptExPc → Shared × List Frame
  | .checkExecuted =>
      if s.executed then
        ({ s with next := s.next + 1 }, [.beginAcceptEx (.createSocket s.next)])
      else ({ s with failed := s.failed + 1 }, [])
  | .createSocket overlapped =>
      if choice then (s, [.beginAcceptEx (.acceptEx overlapped)])
      else ({ s with deleted := s.deleted ++ [overlapped], failed := s.failed + 1 }, [])
  | .acceptEx overlapped =>
      if choice then ({ s with posted := s.posted ++ [overlapped] }, [])
      else ({ s with deleted := s.deleted ++ [overlapped], failed := s.failed + 1 }, [])

/-- The session callbacks are user code; nothing of the acceptor is theirs to change. -/
def onIOCompleted (choice : Bool) (s : Shared) (overlapped : Nat) :
    OnIOCompletedPc → Shared × List Frame
  | .start success =>
      (s, [.onIOCompleted overlapped (if success then .updateAcceptContext else .beginAcceptEx)])
  | .updateAcceptContext =>
      if choice then (s, [.onIOCompleted overlapped .createSession])
      else
        ({ s with
          handled := s.handled ++ [overlapped]
          contextFailures := s.contextFailures ++ [overlapped] }, [])
  | .createSession =>
      (s, [.onIOCompleted overlapped
        (if s.listenerSocketMode = .iocp then .associate else .onAccepted)])
  | .associate =>
      if s.service = some .ioService then (s, [.onIOCompleted overlapped .onAccepted])
      else
        ({ s with
          handled := s.handled ++ [overlapped]
          dropped := s.dropped ++ [overlapped] }, [])
  | .onAccepted => (s, [.onIOCompleted overlapped .beginAcceptEx])
  | .beginAcceptEx =>
      if s.executed then
        (s, [.beginAcceptEx .checkExecuted, .onIOCompleted overlapped .delete])
      else ({ s with skipped := s.skipped + 1 }, [.onIOCompleted overlapped .delete])
  | .delete =>
      ({ s with
        handled := s.handled ++ [overlapped]
        deleted := s.deleted ++ [overlapped] }, [])

def Frame.exec (choice : Bool) (s : Shared) : Frame → Shared × List Frame
  | start beginAcceptCount i =>
      if i < beginAcceptCount then
        (s, [beginAcceptEx .checkExecuted, start beginAcceptCount (i + 1)])
      else (s, [])
  | beginAcceptEx pc => Accept.beginAcceptEx choice s pc
  | onIOCompleted overlapped pc => Accept.onIOCompleted choice s overlapped pc

structure Outcome where
  serviceStart : Bool
  bind : Bool
  associate : Bool
  listen : Bool
  acceptExPointer : Bool
  sockaddrsPointer : Bool
deriving DecidableEq, Repr

def listenSocket (service : NetworkService) (o : Outcome) : Bool :=
  o.bind && (service = .ioService && o.associate) && o.listen && o.acceptExPointer &&
    o.sockaddrsPointer

inductive Event where
  | start (beginAcceptCount : Nat) (outcome : Outcome)
  | acceptCompletion (index : Nat) (success : Bool)
  | shutdown
deriving DecidableEq, Repr

/-- The environment: `Create` calls `Start` once, and up to the loop nobody else is there;
a completion takes an outstanding request away and a worker enters the handler; the owner
shuts the acceptor down. -/
def Shared.arrive (s : Shared) : Event → Option (Shared × List Frame)
  | .start beginAcceptCount outcome =>
      if s.started then none
      else if !outcome.serviceStart then some ({ s with started := true, executed := false }, [])
      else
        let service := s.service.getD .ioService
        if listenSocket service outcome then
          some ({ s with
              started := true
              service := some service
              executed := true
              backlog := beginAcceptCount },
            [.start beginAcceptCount 0])
        else
          some ({ s with started := true, service := some service, executed := false }, [])
  | .acceptCompletion index success =>
      match s.posted[index]? with
      | none => none
      | some overlapped =>
          some ({ s with posted := s.posted.eraseIdx index },
            [.onIOCompleted overlapped (.start success)])
  | .shutdown => if s.started then some ({ s with executed := false }, []) else none

def program : Program Shared Frame Bool Event where
  start s := ∃ mode, s = Shared.initial mode
  exec choice s f := f.exec choice s
  arrive event s := s.arrive event

abbrev World := Stacks Shared Frame

def system : System World (Move Bool Event) := program.system

def AtRest (w : World) : Prop := ∀ stack ∈ w.threads, stack = []

instance (w : World) : Decidable (AtRest w) :=
  inferInstanceAs (Decidable (∀ stack ∈ w.threads, stack = []))

inductive Shared.Arrived (s : Shared) : Event → Shared → List Frame → Prop where
  | refused (beginAcceptCount : Nat) (outcome : Outcome) (service : Option NetworkService)
      (hfirst : s.started = false) :
      Arrived s (.start beginAcceptCount outcome)
        { s with started := true, service := service, executed := false } []
  | listening (beginAcceptCount : Nat) (outcome : Outcome) (hfirst : s.started = false) :
      Arrived s (.start beginAcceptCount outcome)
        { s with
          started := true
          service := some .ioService
          executed := true
          backlog := beginAcceptCount }
        [.start beginAcceptCount 0]
  | completion {index overlapped : Nat} (success : Bool)
      (hposted : s.posted[index]? = some overlapped) :
      Arrived s (.acceptCompletion index success)
        { s with posted := s.posted.eraseIdx index }
        [.onIOCompleted overlapped (.start success)]
  | shutdown (hstarted : s.started = true) : Arrived s .shutdown { s with executed := false } []

theorem ioService_of_listenSocket {service : NetworkService} {o : Outcome}
    (h : listenSocket service o = true) : service = .ioService := by
  simp only [listenSocket, Bool.and_eq_true, decide_eq_true_eq] at h
  exact h.1.1.1.2.1

theorem arrived_of_arrive {s s' : Shared} {event : Event} {fs : List Frame}
    (h : s.arrive event = some (s', fs)) : s.Arrived event s' fs := by
  cases event with
  | start n outcome =>
    simp only [Shared.arrive] at h
    split at h
    · cases h
    · rename_i hfirst
      have hfirst : s.started = false := Bool.eq_false_iff.mpr hfirst
      split at h
      · cases h
        exact .refused n outcome s.service hfirst
      · split at h
        · rename_i hlisten
          cases h
          rw [ioService_of_listenSocket hlisten]
          exact .listening n outcome hfirst
        · cases h
          exact .refused n outcome _ hfirst
  | acceptCompletion index success =>
    simp only [Shared.arrive] at h
    split at h
    · cases h
    · rename_i hposted
      cases h
      exact .completion success hposted
  | shutdown =>
    simp only [Shared.arrive] at h
    split at h
    · rename_i hstarted
      cases h
      exact .shutdown hstarted
    · cases h

theorem exec_keeps (choice : Bool) (s : Shared) (f : Frame) :
    (f.exec choice s).1.executed = s.executed ∧ (f.exec choice s).1.started = s.started ∧
      (f.exec choice s).1.service = s.service ∧ (f.exec choice s).1.backlog = s.backlog := by
  cases f with
  | start n i =>
    simp only [Frame.exec]
    split <;> exact ⟨rfl, rfl, rfl, rfl⟩
  | beginAcceptEx pc =>
    cases pc <;> simp only [Frame.exec, beginAcceptEx] <;> split <;> exact ⟨rfl, rfl, rfl, rfl⟩
  | onIOCompleted o pc =>
    cases pc with
    | start success => exact ⟨rfl, rfl, rfl, rfl⟩
    | updateAcceptContext =>
      simp only [Frame.exec, onIOCompleted]
      split <;> exact ⟨rfl, rfl, rfl, rfl⟩
    | createSession => exact ⟨rfl, rfl, rfl, rfl⟩
    | associate =>
      simp only [Frame.exec, onIOCompleted]
      split <;> exact ⟨rfl, rfl, rfl, rfl⟩
    | onAccepted => exact ⟨rfl, rfl, rfl, rfl⟩
    | beginAcceptEx =>
      simp only [Frame.exec, onIOCompleted]
      split <;> exact ⟨rfl, rfl, rfl, rfl⟩
    | delete => exact ⟨rfl, rfl, rfl, rfl⟩

end FastPort.Core.Accept
