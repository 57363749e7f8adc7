import FastPort.Sessions.RIOStream
import FastPort.Foundation.Stack

/-! `m_PendingTotalBytes` beside the queue whose bytes it counts. Here `m_SendQueueMutex`
is a lock that is taken and given back, and the queue and the counter change in steps of
their own; the load of the backpressure check comes at any time. -/
namespace FastPort.Sessions.Rio.Backpressure

open FastPort.Commons FastPort.Foundation.Circular FastPort.Foundation.Pool
open FastPort.Foundation.Stack FastPort.Foundation.Tally FastPort.Foundation.Transition
open FastPort.Foundation.Transition.System

/-- The session, and whether a thread holds `m_SendQueueMutex`. -/
structure Shared extends Rio.Shared where
  sendQueueMutex : Bool

/-- A step under `m_SendQueueMutex`. -/
inductive Guarded where
  | enqueue (m : Message)
  | addPending (totalSize : Nat)
  | flushTurn
  | subtractPending
  | popPending
  | tryPostSendFromQueue
  | consume (bytesTransferred : Nat)
deriving DecidableEq

inductive Scope where
  | sendMessage (m : Message)
  | flushPendingSendQueue
  | sendCompletion (bytesTransferred : Nat)
deriving DecidableEq

def Scope.first : Scope → Guarded
  | sendMessage m => .enqueue m
  | flushPendingSendQueue => .flushTurn
  | sendCompletion bytesTransferred => .consume bytesTransferred

/-- A function in progress and the step it takes next. `returns` is the end of a call
of `SendMessage`. -/
inductive Frame where
  | checkDisconnected (m : Message)
  | checkPending (m : Message)
  | lock (scope : Scope)
  | holding (f : Guarded)
  | unlock
  | returns
  | sendCompletion (success : Bool) (bytesTransferred : Nat)
  | disconnect
  | onDisconnected
  | userCode
deriving DecidableEq

/-- What a step cannot decide for itself: whether the `RIOSend` it makes is taken, and
which message user code sends next, if any. -/
structure Choice where
  accepted : Bool
  call : Option Message
deriving DecidableEq

def frontSize : List PendingPacket → Nat
  | [] => 0
  | pending :: _ => pending.data.length

@[simp] theorem frontSize_cons (pending : PendingPacket) (rest : List PendingPacket) :
    frontSize (pending :: rest) = pending.data.length := rfl

/-- One turn of the loop of `FlushPendingSendQueue`, up to the test whether the packet is
used up. -/
def flushTurn (s : Shared) : Shared × List Frame :=
  match s.pendingSendQueue with
  | [] => (s, [.holding .tryPostSendFromQueue])
  | pending :: rest =>
      let remainingInPacket := pending.data.length - pending.offset
      let writable := s.sendBuffer.getWriteableBuffers
      if writable.1 = 0 then (s, [.holding .tryPostSendFromQueue])
      else
        let toWrite := min remainingInPacket writable.1
        let copied := copyToSpans s.sendBuffer writable.2 (pending.data.drop pending.offset) toWrite
        let offset := pending.offset + copied.2
        ({ s with
            sendBuffer := (copied.1.commitWrite copied.2).getD copied.1
            pendingSendQueue := ⟨pending.data, offset⟩ :: rest },
          [.holding (if offset ≥ pending.data.length then .subtractPending
            else .tryPostSendFromQueue)])

/-- The attempt of the fast path, else `push_back`. -/
def enqueue (m : Message) (s : Shared) : Shared × List Frame :=
  let queued := { s with
    pendingSendQueue := s.pendingSendQueue ++ [⟨packetData m, 0⟩]
    accepted := s.accepted ++ [m] }
  if s.pendingSendQueue.isEmpty && decide (s.sendBuffer.canWriteSize ≥ m.totalSize) then
    match s.sendBuffer.write (packetData m) with
    | some q => ({ s with sendBuffer := q, accepted := s.accepted ++ [m] }, [.unlock])
    | none => (queued, [.holding (.addPending m.totalSize)])
  else (queued, [.holding (.addPending m.totalSize)])

def Guarded.exec (accepted : Bool) (s : Shared) : Guarded → Shared × List Frame
  | enqueue m => Backpressure.enqueue m s
  | addPending totalSize =>
      ({ s with pendingTotalBytes := s.pendingTotalBytes + totalSize }, [.unlock])
  | flushTurn => Backpressure.flushTurn s
  | subtractPending =>
      ({ s with pendingTotalBytes := s.pendingTotalBytes - frontSize s.pendingSendQueue },
        [.holding popPending])
  | popPending =>
      ({ s with pendingSendQueue := s.pendingSendQueue.tail }, [.holding flushTurn])
  | tryPostSendFromQueue =>
      ({ s with toShared := Rio.tryPostSendFromQueue accepted s.toShared }, [.unlock])
  | consume bytesTransferred =>
      ({ s with toShared := Rio.consume bytesTransferred s.toShared }, [.unlock])

/-- One step. A thread that finds `m_SendQueueMutex` taken stays where it is. -/
def Frame.exec (choice : Choice) (s : Shared) : Frame → Shared × List Frame
  | checkDisconnected m => (s, if s.isDisconnected then [] else [checkPending m])
  | checkPending m =>
      (s, if s.pendingTotalBytes > maxPendingBytes then [disconnect]
        else [lock (.sendMessage m), lock .flushPendingSendQueue])
  | lock scope =>
      if s.sendQueueMutex then (s, [lock scope])
      else ({ s with sendQueueMutex := true }, [holding scope.first])
  | holding f => f.exec choice.accepted s
  | unlock => ({ s with sendQueueMutex := false }, [])
  | returns => (s, [])
  | sendCompletion success bytesTransferred =>
      (s, if success then [lock (.sendCompletion bytesTransferred), lock .flushPendingSendQueue]
        else [disconnect])
  | disconnect => ({ s with isDisconnected := true }, [onDisconnected])
  | onDisconnected => ({ s with disconnections := s.disconnections + 1 }, [userCode])
  | userCode =>
      (s, match choice.call with
        | none => []
        | some m => [checkDisconnected m, returns, userCode])

def threadOf : Rio.Frame → List Frame
  | .checkDisconnected m => [.checkDisconnected m, .returns]
  | .sendCompletion success bytesTransferred => [.sendCompletion success bytesTransferred]
  | _ => [.disconnect]

def Shared.arrive (s : Shared) (event : Rio.Event) : Option (Shared × List Frame) :=
  (s.toShared.arrive event).map fun r =>
    ({ s with toShared := r.1 }, (r.2.map threadOf).getD [])

def program : Program Shared Frame Choice Rio.Event where
  start s := ∃ sendSlice memory, memory.length = sendSlice.length ∧
    s = ⟨Rio.Shared.initial sendSlice memory, false⟩
  exec choice s f := f.exec choice s
  arrive event s := s.arrive event

abbrev World := Stacks Shared Frame
abbrev Label := Move Choice Rio.Event

def system : System World Label := program.system

variable {ok : World → Label → Prop} {w : World}

/-- What the frame on top of a thread that arrives has done: nothing to the queue, its
counter or the lock. -/
theorem Shared.arrive_spec {s s' : Shared} {event : Rio.Event} {fs : List Frame}
    (h : s.arrive event = some (s', fs)) :
    s'.sendQueueMutex = s.sendQueueMutex ∧ s'.pendingSendQueue = s.pendingSendQueue ∧
      s'.pendingTotalBytes = s.pendingTotalBytes ∧
      ((∃ m, event = .sendMessage m ∧ fs = [.checkDisconnected m, .returns]) ∨
        (∃ success n, fs = [.sendCompletion success n]) ∨ fs = [.disconnect]) := by
  obtain ⟨⟨shared, t⟩, harrived, hr⟩ := Option.map_eq_some_iff.mp h
  cases hr
  cases event with
  | sendMessage m =>
    cases harrived
    exact ⟨rfl, rfl, rfl, .inl ⟨m, rfl, rfl⟩⟩
  | receiveFailed =>
    cases harrived
    exact ⟨rfl, rfl, rfl, .inr (.inr rfl)⟩
  | sendCompletion index success n =>
    simp only [Rio.Shared.arrive] at harrived
    split at harrived
    · cases harrived
    · split at harrived
      · cases harrived
        exact ⟨rfl, rfl, rfl, .inr (.inl ⟨success, n, rfl⟩)⟩
      · cases harrived

theorem tryPostSendFromQueue_frame (accepted : Bool) (s : Rio.Shared) :
    (Rio.tryPostSendFromQueue accepted s).pendingSendQueue = s.pendingSendQueue ∧
      (Rio.tryPostSendFromQueue accepted s).pendingTotalBytes = s.pendingTotalBytes := by
  unfold Rio.tryPostSendFromQueue
  dsimp only
  split
  · exact ⟨rfl, rfl⟩
  · split
    · exact ⟨rfl, rfl⟩
    · split <;> exact ⟨rfl, rfl⟩

namespace Frame

inductive Steps (choice : Choice) (s : Shared) : Frame → Shared → List Frame → Prop where
  | refused {m : Message} : Steps choice s (.checkDisconnected m) s []
  | connected {m : Message} : Steps choice s (.checkDisconnected m) s [.checkPending m]
  | exceeded {m : Message} (hover : maxPendingBytes < s.pendingTotalBytes) :
      Steps choice s (.checkPending m) s [.disconnect]
  | passed {m : Message} (hlimit : s.pendingTotalBytes ≤ maxPendingBytes) :
      Steps choice s (.checkPending m) s [.lock (.sendMessage m), .lock .flushPendingSendQueue]
  | waits {scope : Scope} (htaken : s.sendQueueMutex = true) :
      Steps choice s (.lock scope) s [.lock scope]
  | locked {scope : Scope} (hfree : s.sendQueueMutex = false) :
      Steps choice s (.lock scope) { s with sendQueueMutex := true } [.holding scope.first]
  | written {m : Message} {q : RingBuffer} :
      Steps choice s (.holding (.enqueue m))
        { s with sendBuffer := q, accepted := s.accepted ++ [m] } [.unlock]
  | queued {m : Message} :
      Steps choice s (.holding (.enqueue m))
        { s with
          pendingSendQueue := s.pendingSendQueue ++ [⟨packetData m, 0⟩]
          accepted := s.accepted ++ [m] }
        [.holding (.addPending m.totalSize)]
  | counted {totalSize : Nat} :
      Steps choice s (.holding (.addPending totalSize))
        { s with pendingTotalBytes := s.pendingTotalBytes + totalSize } [.unlock]
  | stopped : Steps choice s (.holding .flushTurn) s [.holding .tryPostSendFromQueue]
  | moved {q : RingBuffer} {pending : PendingPacket} {offset : Nat} {rest : List PendingPacket}
      {next : Guarded} (hqueue : s.pendingSendQueue = pending :: rest)
      (hnext : next = .subtractPending ∨ next = .tryPostSendFromQueue) :
      Steps choice s (.holding .flushTurn)
        { s with sendBuffer := q, pendingSendQueue := ⟨pending.data, offset⟩ :: rest }
        [.holding next]
  | subtracted :
      Steps choice s (.holding .subtractPending)
        { s with pendingTotalBytes := s.pendingTotalBytes - frontSize s.pendingSendQueue }
        [.holding .popPending]
  | popped :
      Steps choice s (.holding .popPending)
        { s with pendingSendQueue := s.pendingSendQueue.tail } [.holding .flushTurn]
  | posted {shared : Rio.Shared} (hqueue : shared.pendingSendQueue = s.pendingSendQueue)
      (htotal : shared.pendingTotalBytes = s.pendingTotalBytes) :
      Steps choice s (.holding .tryPostSendFromQueue) { s with toShared := shared } [.unlock]
  | consumed {n : Nat} :
      Steps choice s (.holding (.consume n))
        { s with toShared := Rio.consume n s.toShared } [.unlock]
  | unlocked : Steps choice s .unlock { s with sendQueueMutex := false } []
  | returned : Steps choice s .returns s []
  | completed {success : Bool} {n : Nat} :
      Steps choice s (.sendCompletion success n) s
        [.lock (.sendCompletion n), .lock .flushPendingSendQueue]
  | failed {success : Bool} {n : Nat} : Steps choice s (.sendCompletion success n) s [.disconnect]
  | disconnected : Steps choice s .disconnect { s with isDisconnected := true } [.onDisconnected]
  | announced :
      Steps choice s .onDisconnected { s with disconnections := s.disconnections + 1 } [.userCode]
  | done : Steps choice s .userCode s []
  | called {m : Message} (hcall : choice.call = some m) :
      Steps choice s .userCode s [.checkDisconnected m, .returns, .userCode]

theorem steps_enqueue (choice : Choice) (s : Shared) (m : Message) :
    Steps choice s (.holding (.enqueue m)) (enqueue m s).1 (enqueue m s).2 := by
  unfold enqueue
  dsimp only
  split
  · split
    · exact .written
    · exact .queued
  · exact .queued

theorem steps_flushTurn (choice : Choice) (s : Shared) :
    Steps choice s (.holding .flushTurn) (flushTurn s).1 (flushTurn s).2 := by
  unfold flushTurn
  cases hqueue : s.pendingSendQueue with
  | nil => exact .stopped
  | cons pending rest =>
    dsimp only
    split
    · exact .stopped
    · refine .moved hqueue ?_
      split
      · exact .inl rfl
      · exact .inr rfl

theorem steps_exec (f : Frame) (choice : Choice) (s : Shared) :
    f.Steps choice s (f.exec choice s).1 (f.exec choice s).2 := by
  cases f with
  | checkDisconnected m =>
    simp only [exec]
    split
    · exact .refused
    · exact .connected
  | checkPending m =>
    simp only [exec]
    split
    · rename_i hover
      exact .exceeded hover
    · rename_i hlimit
      exact .passed (Nat.le_of_not_lt hlimit)
  | lock scope =>
    simp only [exec]
    split
    · rename_i htaken
      exact .waits htaken
    · rename_i hfree
      exact .locked (Bool.not_eq_true _ ▸ hfree)
  | holding f =>
    cases f with
    | enqueue m => exact steps_enqueue choice s m
    | addPending totalSize => exact .counted
    | flushTurn => exact steps_flushTurn choice s
    | subtractPending => exact .subtracted
    | popPending => exact .popped
    | tryPostSendFromQueue =>
      obtain ⟨hqueue, htotal⟩ := tryPostSendFromQueue_frame choice.accepted s.toShared
      exact .posted hqueue htotal
    | consume n => exact .consumed
  | unlock => exact .unlocked
  | returns => exact .returned
  | sendCompletion success n =>
    simp only [exec]
    split
    · exact .completed
    · exact .failed
  | disconnect => exact .disconnected
  | onDisconnected => exact .announced
  | userCode =>
    simp only [exec]
    split
    · exact .done
    · rename_i hcall
      exact .called hcall

def holds : Frame → Nat
  | holding _ | unlock => 1
  | _ => 0

/-- The frames of a call of `SendMessage` that has passed the check and whose packet is
not counted yet. -/
def passed : Frame → Nat
  | lock (.sendMessage _) | holding (.enqueue _) | holding (.addPending _) => 1
  | _ => 0

def checks : Frame → Nat
  | checkDisconnected _ | checkPending _ => 1
  | _ => 0

def sends (f : Frame) : Nat :=
  f.checks + f.passed

def encoded : Frame → Nat
  | checkDisconnected m | checkPending m => m.totalSize
  | lock (.sendMessage m) | holding (.enqueue m) => m.totalSize
  | holding (.addPending totalSize) => totalSize
  | _ => 0

theorem sends_le (f : Frame) : f.sends ≤ 1 := by
  unfold sends checks
  split
  · exact Nat.le_refl 1
  · exact Nat.le_refl 1
  · unfold passed
    split <;> simp

namespace Steps

variable {choice : Choice} {s s' : Shared} {f : Frame} {fs : List Frame}

theorem holds (h : f.Steps choice s s' fs) :
    (tally Frame.holds fs = f.holds ∧ s'.sendQueueMutex = s.sendQueueMutex) ∨
    (s.sendQueueMutex = false ∧ f.holds = 0 ∧
      (∃ scope : Scope, fs = [.holding scope.first]) ∧ s'.sendQueueMutex = true) ∨
    (f.holds = 1 ∧ tally Frame.holds fs = 0 ∧ s'.sendQueueMutex = false) := by
  cases h with
  | locked hfree => exact .inr (.inl ⟨hfree, rfl, ⟨_, rfl⟩, rfl⟩)
  | unlocked => exact .inr (.inr ⟨rfl, rfl, rfl⟩)
  | _ => exact .inl ⟨rfl, rfl⟩

theorem frame (h : f.Steps choice s s' fs) (hf : f.holds = 0) :
    s'.pendingSendQueue = s.pendingSendQueue ∧ s'.pendingTotalBytes = s.pendingTotalBytes := by
  cases h
  all_goals first | exact ⟨rfl, rfl⟩ | cases hf

theorem sends (h : f.Steps choice s s' fs) :
    (∀ g ∈ fs, g.sends = 0) ∨
    ∃ g gs, fs = g :: gs ∧ (∀ g' ∈ gs, g'.sends = 0) ∧ (0 < f.sends ∨ .returns ∈ gs) := by
  cases h with
  | connected | queued => exact .inr ⟨_, [], rfl, by simp, .inl Nat.one_pos⟩
  | passed => exact .inr ⟨_, _, rfl, by simp [Frame.sends, checks, Frame.passed], .inl Nat.one_pos⟩
  | called =>
    exact .inr ⟨_, _, rfl, by simp [Frame.sends, checks, Frame.passed], .inr (by simp)⟩
  | @waits scope | @locked scope =>
    cases scope with
    | sendMessage m => exact .inr ⟨_, [], rfl, by simp, .inl Nat.one_pos⟩
    | _ => exact .inl (by simp [Frame.sends, checks, Frame.passed, Scope.first])
  | moved _ hnext =>
    rcases hnext with rfl | rfl <;> exact .inl (by simp [Frame.sends, checks, Frame.passed])
  | _ => exact .inl (by simp [Frame.sends, checks, Frame.passed])

theorem encoded (h : f.Steps choice s s' fs) {g : Frame} (hg : g ∈ fs) :
    g.encoded ≤ f.encoded ∨ ∃ m, choice.call = some m ∧ g.encoded ≤ m.totalSize := by
  cases h with
  | @waits scope | @locked scope =>
    obtain rfl := List.mem_singleton.mp hg
    cases scope <;> exact .inl (Nat.le_refl _)
  | moved _ hnext =>
    obtain rfl := List.mem_singleton.mp hg
    rcases hnext with rfl | rfl <;> exact .inl (Nat.zero_le _)
  | @called m hcall =>
    rcases List.mem_cons.mp hg with rfl | hg
    · exact .inr ⟨m, hcall, Nat.le_refl _⟩
    · refine .inl (Nat.le_of_eq ?_)
      rcases List.mem_cons.mp hg with rfl | hg
      · rfl
      · obtain rfl := List.mem_singleton.mp hg
        rfl
  | refused | unlocked | returned | done => cases hg
  | passed | completed =>
    rcases List.mem_cons.mp hg with rfl | hg
    · exact .inl (Nat.le_refl _)
    · obtain rfl := List.mem_singleton.mp hg
      exact .inl (Nat.zero_le _)
  | connected | queued =>
    obtain rfl := List.mem_singleton.mp hg
    exact .inl (Nat.le_refl _)
  | _ =>
    obtain rfl := List.mem_singleton.mp hg
    exact .inl (Nat.zero_le _)

theorem passed_spec (h : f.Steps choice s s' fs) :
    (s'.pendingTotalBytes ≤ s.pendingTotalBytes ∧ tally Frame.passed fs ≤ f.passed) ∨
    (f.checks = 1 ∧ s.pendingTotalBytes ≤ maxPendingBytes ∧ s' = s ∧ f.passed = 0 ∧
      tally Frame.passed fs = 1) ∨
    (s'.pendingTotalBytes = s.pendingTotalBytes + f.encoded ∧ f.passed = 1 ∧
      tally Frame.passed fs = 0) := by
  cases h with
  | passed hlimit => exact .inr (.inl ⟨rfl, hlimit, rfl, rfl, rfl⟩)
  | counted => exact .inr (.inr ⟨rfl, rfl, rfl⟩)
  | @waits scope | @locked scope =>
    cases scope <;> exact .inl ⟨Nat.le_refl _, Nat.le_refl _⟩
  | moved _ hnext =>
    rcases hnext with rfl | rfl <;> exact .inl ⟨Nat.le_refl _, Nat.le_refl _⟩
  | subtracted => exact .inl ⟨Nat.sub_le _ _, Nat.le_refl _⟩
  | posted _ htotal => exact .inl ⟨Nat.le_of_eq htotal, Nat.le_refl _⟩
  | written => exact .inl ⟨Nat.le_refl _, Nat.zero_le _⟩
  | _ => exact .inl ⟨Nat.le_refl _, Nat.le_refl _⟩

end Steps

end Frame

theorem Shared.holds_of_arrive {s s' : Shared} {event : Rio.Event} {fs : List Frame}
    (h : s.arrive event = some (s', fs)) : tally Frame.holds fs = 0 := by
  obtain ⟨-, -, -, ⟨m, -, rfl⟩ | ⟨success, n, rfl⟩ | rfl⟩ := Shared.arrive_spec h <;> rfl

theorem weigh_holds (hw : system.Reach ok w) :
    w.weigh Frame.holds = w.shared.sendQueueMutex.toNat := by
  apply Program.focus (p := program) (fun s => s.sendQueueMutex) Frame.holds
    (J := fun mutex held => held = mutex.toNat) ?_ ?_ ?_ hw
  · rintro s ⟨_, _, _, rfl⟩
    rfl
  · intro w tid choice f rest others _ _ _ _ ih
    have hle := Bool.toNat_le w.shared.sendQueueMutex
    simp only [program]
    rcases (f.steps_exec choice w.shared).holds with ⟨hfs, hmutex⟩ |
      ⟨hfree, hf, ⟨scope, hfs⟩, hmutex⟩ | ⟨hf, hfs, hmutex⟩
    · rw [hmutex, hfs, ← ih]
    · rw [hfree, hf, Bool.toNat_false] at ih
      rw [hmutex, hfs, Bool.toNat_true]
      simp only [tally_cons, tally_nil, Frame.holds]
      omega
    · rw [hmutex, hfs, Bool.toNat_false]
      omega
  · intro w event s' fs _ _ harrived ih
    obtain ⟨hmutex, -⟩ := Shared.arrive_spec harrived
    rw [hmutex, Shared.holds_of_arrive harrived, Nat.zero_add, ih]

@[simp] theorem pendingBytes_cons (p : PendingPacket) (queue : List PendingPacket) :
    pendingBytes (p :: queue) = p.data.length + pendingBytes queue := rfl

@[simp] theorem pendingBytes_append (left right : List PendingPacket) :
    pendingBytes (left ++ right) = pendingBytes left + pendingBytes right :=
  tally_append _ left right

theorem length_packetData (m : Message) : (packetData m).length = m.totalSize :=
  m.length_encode

def Counted (s : Shared) : Prop :=
  s.pendingTotalBytes = pendingBytes s.pendingSendQueue

/-- What the counter is, by the step that comes next under the lock: while a packet has
been queued and not counted, or uncounted and not popped, it differs by that packet. -/
def Stage (s : Shared) : Frame → Prop
  | .holding (.addPending totalSize) =>
      s.pendingTotalBytes + totalSize = pendingBytes s.pendingSendQueue
  | .holding .subtractPending =>
      s.pendingSendQueue ≠ [] ∧ s.pendingTotalBytes = pendingBytes s.pendingSendQueue
  | .holding .popPending =>
      s.pendingSendQueue ≠ [] ∧
        s.pendingTotalBytes + frontSize s.pendingSendQueue = pendingBytes s.pendingSendQueue
  | _ => s.pendingTotalBytes = pendingBytes s.pendingSendQueue

theorem Stage.first {s : Shared} (h : Counted s) (scope : Scope) :
    Stage s (.holding scope.first) := by
  cases scope <;> exact h

theorem Stage.congr {s s' : Shared} {f : Frame} (h : Stage s f)
    (hqueue : s'.pendingSendQueue = s.pendingSendQueue)
    (htotal : s'.pendingTotalBytes = s.pendingTotalBytes) : Stage s' f := by
  unfold Stage at h ⊢
  rw [hqueue, htotal]
  exact h

theorem Stage.settled {choice : Choice} {s s' : Shared} {f : Frame} {fs : List Frame}
    (h : Stage s f) (hholds : 0 < f.holds) (hstep : f.Steps choice s s' fs) :
    Stacks.Settled Frame.holds Stage Counted s' fs := by
  cases hstep with
  | unlocked => exact .of_idle h rfl
  | written | counted | stopped | consumed => exact .cons h Nat.one_pos rfl
  | @queued m =>
    refine .cons ?_ Nat.one_pos rfl
    simp only [Stage] at h ⊢
    rw [pendingBytes_append, h, pendingBytes_cons, length_packetData]
    rfl
  | moved hqueue hnext =>
    refine .cons ?_ Nat.one_pos rfl
    simp only [Stage, hqueue] at h
    rcases hnext with rfl | rfl
    · exact ⟨by simp, h⟩
    · exact h
  | subtracted =>
    obtain ⟨hne, hcount⟩ := h
    obtain ⟨pending, rest, hqueue⟩ := List.exists_cons_of_ne_nil hne
    refine .cons ⟨hne, ?_⟩ Nat.one_pos rfl
    simp only [hqueue, pendingBytes_cons, frontSize_cons] at hcount ⊢
    omega
  | popped =>
    obtain ⟨hne, hcount⟩ := h
    obtain ⟨pending, rest, hqueue⟩ := List.exists_cons_of_ne_nil hne
    refine .cons ?_ Nat.one_pos rfl
    simp only [Stage, hqueue, pendingBytes_cons, frontSize_cons, List.tail_cons] at hcount ⊢
    omega
  | posted hqueue htotal =>
    refine .cons ?_ Nat.one_pos rfl
    simp only [Stage] at h ⊢
    rw [hqueue, htotal, h]
  | _ => cases hholds

theorem staged (hw : system.Reach ok w) : Stacks.Staged Frame.holds Stage Counted w := by
  apply Program.token (p := program) ?_ ?_ ?_ ?_ ?_ hw
  · intro w hw
    rw [weigh_holds hw]
    exact Bool.toNat_le _
  · rintro s ⟨_, _, _, rfl⟩
    rfl
  · intro w tid choice f rest _ _ _ hpos hstage
    exact hstage.settled hpos (f.steps_exec choice w.shared)
  · intro w tid choice f rest hreach hok hthread hzero
    have hstep := f.steps_exec choice w.shared
    obtain ⟨hqueue, htotal⟩ := hstep.frame hzero
    refine ⟨fun g _ hg => hg.congr hqueue htotal, fun hidle => ?_⟩
    have hcounted : Counted (f.exec choice w.shared).1 := by
      unfold Counted
      rw [hqueue, htotal]
      exact hidle
    simp only [program]
    rcases hstep.holds with ⟨hfs, -⟩ | ⟨-, -, ⟨scope, hfs⟩, -⟩ | ⟨hf, -⟩
    · exact .of_idle hcounted (hfs.trans hzero)
    · rw [hfs]
      exact .cons (.first hcounted scope) Nat.one_pos rfl
    · omega
  · intro w event s' fs hreach hok harrived
    obtain ⟨-, hqueue, htotal, -⟩ := Shared.arrive_spec harrived
    refine ⟨fun _ g _ hg => hg.congr hqueue htotal, fun _ hidle => ?_⟩
    apply Stacks.Settled.of_idle ?_ (Shared.holds_of_arrive harrived)
    unfold Counted
    rw [hqueue, htotal]
    exact hidle

theorem alone_enqueue (choice : Choice) (s : Shared) (m : Message) (rest : List Frame) :
    program.Alone choice s (.holding (.enqueue m) :: rest)
      { s with toShared := Rio.enqueue m s.toShared } (.unlock :: rest) := by
  have hslow : Frame.exec choice s (.holding (.enqueue m)) =
        ({ s with
          pendingSendQueue := s.pendingSendQueue ++ [⟨packetData m, 0⟩]
          accepted := s.accepted ++ [m] }, [.holding (.addPending m.totalSize)]) →
      program.Alone choice s (.holding (.enqueue m) :: rest)
        { s with
          pendingSendQueue := s.pendingSendQueue ++ [⟨packetData m, 0⟩]
          pendingTotalBytes := s.pendingTotalBytes + m.totalSize
          accepted := s.accepted ++ [m] } (.unlock :: rest) :=
    fun hexec => .exec hexec (.exec rfl .refl)
  cases hfast : s.pendingSendQueue.isEmpty && decide (s.sendBuffer.canWriteSize ≥ m.totalSize) with
  | true =>
    cases hwrite : s.sendBuffer.write (packetData m) with
    | some q =>
      have hexec : Frame.exec choice s (.holding (.enqueue m)) =
          ({ s with sendBuffer := q, accepted := s.accepted ++ [m] }, [.unlock]) := by
        simp only [Frame.exec, Guarded.exec, enqueue, hfast, hwrite, if_true]
      simp only [Rio.enqueue, hfast, hwrite, if_true]
      exact .exec hexec .refl
    | none =>
      simp only [Rio.enqueue, hfast, hwrite, if_true]
      apply hslow
      simp only [Frame.exec, Guarded.exec, enqueue, hfast, hwrite, if_true]
  | false =>
    simp only [Rio.enqueue, hfast, Bool.false_eq_true, if_false]
    apply hslow
    simp only [Frame.exec, Guarded.exec, enqueue, hfast, Bool.false_eq_true, if_false]

theorem alone_stop {choice : Choice} {s s' : Shared} {rest : List Frame}
    (hexec : Frame.exec choice s (.holding .flushTurn) =
      (s', [.holding .tryPostSendFromQueue]))
    (hflush : flushQueue s.sendBuffer s.pendingTotalBytes s.pendingSendQueue =
      (s'.sendBuffer, s'.pendingTotalBytes, s'.pendingSendQueue))
    (hrest : { s with
      sendBuffer := s'.sendBuffer
      pendingTotalBytes := s'.pendingTotalBytes
      pendingSendQueue := s'.pendingSendQueue } = s') :
    program.Alone choice s (.holding .flushTurn :: rest)
      { s with toShared := Rio.flushPendingSendQueue choice.accepted s.toShared }
      (.unlock :: rest) := by
  rw [Rio.flushPendingSendQueue, hflush]
  rw [← hrest] at hexec
  exact .exec hexec (.exec rfl .refl)

theorem alone_flush (choice : Choice) (s : Shared) (rest : List Frame) :
    program.Alone choice s (.holding .flushTurn :: rest)
      { s with toShared := Rio.flushPendingSendQueue choice.accepted s.toShared }
      (.unlock :: rest) := by
  obtain ⟨queue, hqueue⟩ : ∃ queue, s.pendingSendQueue = queue := ⟨_, rfl⟩
  induction queue generalizing s with
  | nil =>
    refine @alone_stop choice s s rest ?_ ?_ rfl
    · simp only [Frame.exec, Guarded.exec, flushTurn, hqueue]
    · rw [hqueue, flushQueue]
  | cons pending queue ih =>
    by_cases hfull : s.sendBuffer.getWriteableBuffers.1 = 0
    · refine @alone_stop choice s s rest ?_ ?_ rfl
      · simp only [Frame.exec, Guarded.exec, flushTurn, hqueue, hfull, if_true]
      · simp only [hqueue, flushQueue, hfull, if_true]
    let copied := copyToSpans s.sendBuffer s.sendBuffer.getWriteableBuffers.2
      (pending.data.drop pending.offset)
      (min (pending.data.length - pending.offset) s.sendBuffer.getWriteableBuffers.1)
    let q := (copied.1.commitWrite copied.2).getD copied.1
    have hexec : Frame.exec choice s (.holding .flushTurn) =
        ({ s with
          sendBuffer := q
          pendingSendQueue := ⟨pending.data, pending.offset + copied.2⟩ :: queue },
        [.holding (if pending.offset + copied.2 ≥ pending.data.length then .subtractPending
          else .tryPostSendFromQueue)]) := by
      simp only [Frame.exec, Guarded.exec, flushTurn, hqueue, hfull, if_false, copied, q]
    by_cases hdone : pending.offset + copied.2 ≥ pending.data.length
    · have hflush : flushQueue s.sendBuffer s.pendingTotalBytes s.pendingSendQueue =
          flushQueue q (s.pendingTotalBytes - pending.data.length) queue := by
        rw [hqueue, flushQueue]
        simp only [hfull, if_false, if_pos hdone, copied, q]
      rw [if_pos hdone] at hexec
      simp only [Rio.flushPendingSendQueue, hflush]
      apply Program.Alone.exec hexec
      apply Program.Alone.exec rfl
      apply Program.Alone.exec rfl
      exact ih { s with
        sendBuffer := q
        pendingTotalBytes := s.pendingTotalBytes - pending.data.length
        pendingSendQueue := queue } rfl
    · have hflush : flushQueue s.sendBuffer s.pendingTotalBytes s.pendingSendQueue =
          (q, s.pendingTotalBytes, ⟨pending.data, pending.offset + copied.2⟩ :: queue) := by
        rw [hqueue, flushQueue]
        simp only [hfull, if_false, if_neg hdone, copied, q]
      rw [if_neg hdone] at hexec
      exact alone_stop hexec hflush rfl

def World.senders (w : World) : Nat :=
  w.threads.countP fun stack => decide (.returns ∈ stack)

def sentMessage : Label → Option Message
  | .run _ choice => choice.call
  | .spawn (.sendMessage m) => some m
  | .spawn _ => none

/-- At most `k` threads are inside `SendMessage`, and the message that a step sends is
encoded in at most `size` bytes. -/
def Bounded (k size : Nat) (w : World) (l : Label) : Prop :=
  w.senders ≤ k ∧ ∀ m ∈ sentMessage l, m.totalSize ≤ size

instance (k size : Nat) (w : World) (l : Label) : Decidable (Bounded k size w l) :=
  inferInstanceAs (Decidable (_ ∧ _))

/-- Only the frame on top can be that of a `SendMessage` that has not counted its packet,
and the call it belongs to returns below it. -/
structure Nested (stack : List Frame) : Prop where
  below : ∀ f ∈ stack.tail, f.sends = 0
  returns : ∀ f ∈ stack.head?, 0 < f.sends → .returns ∈ stack.tail

theorem Nested.of_quiet {stack : List Frame} (h : ∀ f ∈ stack, f.sends = 0) :
    Nested stack where
  below := fun f hf => h f (List.mem_of_mem_tail hf)
  returns := fun f hf hsends => by
    have hquiet := h f (List.mem_of_mem_head? hf)
    omega

theorem nested (hw : system.Reach ok w) : ∀ stack ∈ w.threads, Nested stack := by
  refine Program.forall_stack (p := program) (P := Nested) ?_ ?_ hw
  · intro w tid choice f rest _ _ h
    simp only [program]
    have hrest : ∀ g ∈ rest, g.sends = 0 := h.below
    rcases (f.steps_exec choice w.shared).sends with hquiet | ⟨g, gs, hfs, hgs, hcall⟩
    · apply Nested.of_quiet
      intro g hg
      exact (List.mem_append.mp hg).elim (hquiet g) (hrest g)
    · rw [hfs]
      constructor
      · intro g' hg'
        exact (List.mem_append.mp hg').elim (hgs g') (hrest g')
      · intro _ _ _
        rcases hcall with hf | hmem
        · exact List.mem_append_right gs (h.returns f (by simp) hf)
        · exact List.mem_append_left rest hmem
  · intro w event s' fs _ _ harrived
    obtain ⟨-, -, -, ⟨m, -, rfl⟩ | ⟨success, n, rfl⟩ | rfl⟩ := Shared.arrive_spec harrived
    · exact ⟨by simp [Frame.sends, Frame.checks, Frame.passed], by simp⟩
    · exact .of_quiet (by simp [Frame.sends, Frame.checks, Frame.passed])
    · exact .of_quiet (by simp [Frame.sends, Frame.checks, Frame.passed])

theorem weigh_sends_le (hw : system.Reach ok w) : w.weigh Frame.sends ≤ w.senders := by
  unfold World.senders
  rw [← tally_eq_countP, Stacks.weigh]
  apply tally_le_tally
  intro stack hstack
  have hnested := nested hw stack hstack
  cases stack with
  | nil => exact Nat.zero_le _
  | cons f rest =>
    have hrest : tally Frame.sends rest = 0 := tally_eq_zero.mpr hnested.below
    have hle := f.sends_le
    rw [tally_cons, hrest]
    rcases Nat.eq_zero_or_pos f.sends with hzero | hpos
    · omega
    · have hmem : .returns ∈ rest := hnested.returns f (by simp) hpos
      rw [decide_eq_true (List.mem_cons_of_mem f hmem)]
      exact hle

variable {k size : Nat}

theorem encoded_le (hw : system.Reach (Bounded k size) w) :
    ∀ stack ∈ w.threads, ∀ f ∈ stack, f.encoded ≤ size := by
  refine Program.forall_stack (p := program) (P := fun stack => ∀ f ∈ stack, f.encoded ≤ size)
    ?_ ?_ hw
  · intro w tid choice f rest _ hok ih g hg
    rcases List.mem_append.mp hg with hnew | hold
    · rcases (f.steps_exec choice w.shared).encoded hnew with hle | ⟨m, hcall, hle⟩
      · exact hle.trans (ih f List.mem_cons_self)
      · exact hle.trans (hok.2 m hcall)
    · exact ih g (List.mem_cons_of_mem f hold)
  · intro w event s' fs _ hok harrived g hg
    obtain ⟨-, -, -, ⟨m, hevent, rfl⟩ | ⟨success, n, rfl⟩ | rfl⟩ := Shared.arrive_spec harrived
    · rcases List.mem_cons.mp hg with rfl | hg
      · exact hok.2 m (by rw [hevent]; rfl)
      · obtain rfl := List.mem_singleton.mp hg
        exact Nat.zero_le _
    · obtain rfl := List.mem_singleton.mp hg
      exact Nat.zero_le _
    · obtain rfl := List.mem_singleton.mp hg
      exact Nat.zero_le _

/-- The counter, with a message for each call past the check, stays below the limit. -/
theorem pendingTotalBytes_add_le (hw : system.Reach (Bounded k size) w) :
    w.shared.pendingTotalBytes + size * w.weigh Frame.passed ≤ maxPendingBytes + k * size := by
  refine Program.invariant (p := program) (I := fun w => w.shared.pendingTotalBytes +
    size * w.weigh Frame.passed ≤ maxPendingBytes + k * size) ?_ ?_ ?_ hw
  · rintro s ⟨_, _, _, rfl⟩
    exact Nat.zero_le _
  · intro w tid choice f rest hreach ih hok hthread
    have hencoded := encoded_le hreach _ (List.mem_of_getElem? hthread) f List.mem_cons_self
    have hweigh := Stacks.weigh_exec Frame.passed hthread (f.exec choice w.shared).1
      (f.exec choice w.shared).2
    simp only [program] at hweigh ⊢
    rcases (f.steps_exec choice w.shared).passed_spec with ⟨htotal, hpassed⟩ |
      ⟨hchecks, hlimit, hs, hf, hpassed⟩ | ⟨htotal, hf, hpassed⟩
    · have hmul := Nat.mul_le_mul_left size (show Stacks.weigh ⟨(f.exec choice w.shared).1,
        w.threads.set tid ((f.exec choice w.shared).2 ++ rest)⟩ Frame.passed ≤
          w.weigh Frame.passed by omega)
      omega
    · -- the caller that passes the check is one of the `k`
      have hsends := (weigh_sends_le hreach).trans hok.1
      have hsplit := Stacks.weigh_add Frame.checks Frame.passed w
      have hchecking : Frame.checks f ≤ w.weigh Frame.checks := Stacks.weight_le_weigh hthread
      have hmul := Nat.mul_le_mul_right size (show w.weigh Frame.passed + 1 ≤ k by
        unfold Frame.sends at hsends
        omega)
      rw [hs] at hweigh ⊢
      rw [hpassed, hf] at hweigh
      rw [show Stacks.weigh ⟨w.shared, w.threads.set tid ((f.exec choice w.shared).2 ++ rest)⟩
        Frame.passed = w.weigh Frame.passed + 1 by omega, Nat.mul_comm size]
      omega
    · rw [htotal]
      have hmul : size * w.weigh Frame.passed = size * Stacks.weigh ⟨(f.exec choice w.shared).1,
          w.threads.set tid ((f.exec choice w.shared).2 ++ rest)⟩ Frame.passed + size := by
        rw [← Nat.mul_succ]
        congr 1
        omega
      omega
  · intro w event s' fs _ ih _ harrived
    obtain ⟨-, -, htotal, hfs⟩ := Shared.arrive_spec harrived
    have hpassed : tally Frame.passed fs = 0 := by
      obtain ⟨m, -, rfl⟩ | ⟨success, n, rfl⟩ | rfl := hfs <;> rfl
    rw [Stacks.weigh_spawn, hpassed, Nat.add_zero]
    simp only [htotal]
    exact ih

theorem frontSize_le (hw : system.Reach ok w) {l : Label}
    (hruns : w.runs l = some (.holding .subtractPending)) :
    ∃ pending rest, w.shared.pendingSendQueue = pending :: rest ∧
      pending.data.length ≤ w.shared.pendingTotalBytes := by
  obtain ⟨tid, rest, hthread⟩ := Stacks.exists_thread_of_runs hruns
  have hstage := (staged hw).stage _ (List.mem_of_getElem? hthread) _ List.mem_cons_self
    Nat.one_pos
  obtain ⟨hne, hcount⟩ := hstage
  obtain ⟨pending, queue, hqueue⟩ := List.exists_cons_of_ne_nil hne
  refine ⟨pending, queue, hqueue, ?_⟩
  rw [hcount, hqueue, pendingBytes_cons]
  exact Nat.le_add_right _ _

/-- Between the critical sections the counter is the size of what is queued; it never goes
below zero, and it exceeds the limit by at most one message for each thread inside
`SendMessage`. -/
theorem backpressure_accounting (hw : system.Reach free w) :
    (w.shared.sendQueueMutex = false →
      w.shared.pendingTotalBytes = pendingBytes w.shared.pendingSendQueue) ∧
    (∀ l : Label, w.runs l = some (.holding .subtractPending) →
      ∃ pending rest, w.shared.pendingSendQueue = pending :: rest ∧
        pending.data.length ≤ w.shared.pendingTotalBytes) ∧
    ∀ k size, system.Reach (Bounded k size) w →
      w.shared.pendingTotalBytes ≤ maxPendingBytes + k * size := by
  refine ⟨fun hfree => ?_, fun l hruns => frontSize_le hw hruns, fun k size hbounded => ?_⟩
  · apply (staged hw).idle
    rw [weigh_holds hw, hfree]
    rfl
  · exact (Nat.le_add_right _ _).trans (pendingTotalBytes_add_le hbounded)

def World.fresh : World :=
  ⟨⟨Rio.Shared.initial ⟨4096, 4, by decide⟩ (List.replicate 4 0), false⟩, []⟩

theorem World.reach_fresh : system.Reach ok World.fresh :=
  .init ⟨⟨_, _, rfl, rfl⟩, rfl⟩

/-- A message of 5 bytes does not fit and is queued. -/
def queueingRun : List Label :=
  .spawn (.sendMessage ⟨1, [7]⟩) :: List.replicate 6 (.run 0 ⟨true, none⟩)

theorem backpressure_accounting_of_queueing :
    ∃ w : World, system.runUnder (Bounded 1 5) World.fresh queueingRun = some w ∧
      w.shared.pendingTotalBytes = 5 ∧
      w.shared.pendingTotalBytes = pendingBytes w.shared.pendingSendQueue ∧
      w.shared.pendingTotalBytes ≤ maxPendingBytes + 1 * 5 := by
  obtain ⟨w, hrun, htest⟩ := exists_of_runUnder system (Bounded 1 5) World.fresh queueingRun
    (fun w => decide (w.shared.pendingTotalBytes = 5 ∧ w.shared.sendQueueMutex = false)) (by decide)
  obtain ⟨htotal, hfree⟩ := of_decide_eq_true htest
  have hbounded : system.Reach (Bounded 1 5) w := World.reach_fresh.of_runUnder hrun
  have hw := backpressure_accounting (hbounded.mono fun _ _ _ => trivial)
  exact ⟨w, hrun, htotal, hw.1 hfree, hw.2.2 1 5 hbounded⟩

end FastPort.Sessions.Rio.Backpressure
