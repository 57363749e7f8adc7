import FastPort.Sessions.RIOStream
import FastPort.Core.PacketFramer
import FastPort.Foundation.Stack

/-! `RIOSession` with both of its directions: the receive path beside the send side,
over one `m_bIsDisconnected`. A thread is a caller of `SendMessage` or of the start
of the receive loop, or the worker that handles one completion. `m_RecvMutex` makes
each call on the receive ring one step. -/
namespace FastPort.Sessions.Rio.Duplex

open FastPort.Commons FastPort.Core FastPort.Foundation.Circular FastPort.Foundation.Pool
open FastPort.Foundation.Stack FastPort.Foundation.Tally FastPort.Foundation.Transition

/-- What shows outside of the session: what it posts, and the calls of the virtual
functions. -/
inductive Effect where
  | rioReceive
  | rioSend
  | onPacketReceived (packet : Packet)
  | onDisconnected
deriving DecidableEq

structure Receiver where
  receiveLoopStarted : Bool
  totalRxBytes : UInt64
  recvSlice : RioBufferSlice
  receiveBuffer : ExternalCircleBufferQueue

/-- The receives in the request queue, how many it has turned down, the bytes that
have come in, and what has shown outside; no step of the session reads these. -/
structure Received where
  rioReceives : List RioBuf
  refusedReceives : Nat
  arrived : List Byte
  log : List Effect

structure Shared extends Rio.Shared, Receiver, Received

/-- The session over its two slices and the memory they name. -/
def Shared.initial (recvSlice sendSlice : RioBufferSlice) (recvMemory sendMemory : List Byte) :
    Shared where
  toShared := Rio.Shared.initial sendSlice sendMemory
  receiveLoopStarted := false
  totalRxBytes := 0
  recvSlice := recvSlice
  receiveBuffer := ExternalCircleBufferQueue.create recvMemory
  rioReceives := []
  refusedReceives := 0
  arrived := []
  log := []

/-- What a step cannot decide for itself: whether the request it posts is taken, and
which message user code sends next, if any. -/
structure Choice where
  accepted : Bool
  call : Option Message
deriving DecidableEq

deriving instance DecidableEq for Rio.Frame

inductive Frame where
  | send (f : Rio.Frame)
  | startReceiveLoop
  | requestRecv
  | rioReceive
  | recvCompletion (success : Bool) (bytesTransferred : Nat)
  | commitWrite (bytesTransferred : Nat)
  | addRxBytes (bytesTransferred : Nat)
  | readReceivedBuffers
  | onPacketReceived (packet : Packet)
  | userCode
deriving DecidableEq

/-- A step of the send side. `OnDisconnected` is where user code comes in. -/
def send (accepted : Bool) (s : Shared) (f : Rio.Frame) : Shared × List Frame :=
  let r := f.exec accepted s.toShared
  let posted := List.replicate (r.1.rioSends.length - s.rioSends.length) Effect.rioSend
  match f with
  | .onDisconnected =>
      ({ s with toShared := r.1, log := s.log ++ [.onDisconnected] }, [.userCode])
  | _ => ({ s with toShared := r.1, log := s.log ++ posted }, r.2.toList.map .send)

/-- `RequestRecv` behind its check: only the first block of free room is posted. -/
def rioReceive (accepted : Bool) (s : Shared) : Shared :=
  let writeable := s.receiveBuffer.getWriteableBuffers
  if writeable.1 = 0 ∨ writeable.2 = [] then s
  else
    let first := writeable.2.headD ⟨0, 0⟩
    let buf : RioBuf :=
      ⟨(s.recvSlice.offset + first.offset % 2 ^ 32) % 2 ^ 32, first.length % 2 ^ 32⟩
    if accepted then
      { s with rioReceives := s.rioReceives ++ [buf], log := s.log ++ [.rioReceive] }
    else { s with refusedReceives := s.refusedReceives + 1 }

/-- One turn of `ReadReceivedBuffers`; its caller goes on to `RequestRecv`. -/
def readReceivedBuffers (s : Shared) : Shared × List Frame :=
  let frame := PacketFramer.tryFrameFromBuffer s.receiveBuffer
  if frame.1.result ≠ .ok then ({ s with receiveBuffer := frame.2 }, [.requestRecv])
  else
    match frame.1.packetOpt with
    | some packet => ({ s with receiveBuffer := frame.2 }, [.onPacketReceived packet])
    | none => ({ s with receiveBuffer := frame.2 }, [.readReceivedBuffers])

def Frame.exec (choice : Choice) (s : Shared) : Frame → Shared × List Frame
  | send f => Duplex.send choice.accepted s f
  | startReceiveLoop =>
      if s.receiveLoopStarted then (s, [])
      else ({ s with receiveLoopStarted := true }, [requestRecv])
  | requestRecv => (s, if s.isDisconnected then [] else [rioReceive])
  | rioReceive => (Duplex.rioReceive choice.accepted s, [])
  | recvCompletion success bytesTransferred =>
      (s, [if !success || bytesTransferred == 0 then send .disconnect
        else commitWrite bytesTransferred])
  | commitWrite bytesTransferred =>
      ({ s with
          receiveBuffer := (s.receiveBuffer.commitWrite bytesTransferred).getD s.receiveBuffer },
        [addRxBytes bytesTransferred])
  | addRxBytes bytesTransferred =>
      ({ s with totalRxBytes := s.totalRxBytes + UInt64.ofNat bytesTransferred },
        [readReceivedBuffers])
  | readReceivedBuffers => Duplex.readReceivedBuffers s
  | onPacketReceived packet =>
      ({ s with log := s.log ++ [.onPacketReceived packet] }, [userCode, readReceivedBuffers])
  | userCode =>
      (s, match choice.call with
        | none => []
        | some m => [send (.checkDisconnected m), userCode])

inductive Event where
  | startReceiveLoop
  | sendMessage (m : Message)
  | recvCompletion (index : Nat) (success : Bool) (data : List Byte)
  | sendCompletion (index : Nat) (success : Bool) (bytesTransferred : Nat)
deriving DecidableEq

def Shared.arriveSend (s : Shared) (event : Rio.Event) : Option (Shared × List Frame) :=
  (s.toShared.arrive event).map fun r => ({ s with toShared := r.1 }, r.2.toList.map .send)

/-- The environment starts a thread. A completion takes its request out of the queue
when a worker enters `OnRioIOCompleted` with it; a receive has stored its data at the
front of its range. -/
def Shared.arrive (s : Shared) : Event → Option (Shared × List Frame)
  | .startReceiveLoop => some (s, [.startReceiveLoop])
  | .sendMessage m => s.arriveSend (.sendMessage m)
  | .recvCompletion index success data =>
      match s.rioReceives[index]? with
      | none => none
      | some buf =>
          if data.length ≤ buf.length then
            some ({ s with
                rioReceives := s.rioReceives.eraseIdx index
                receiveBuffer := s.receiveBuffer.fill
                  (List.range' (buf.offset - s.recvSlice.offset) buf.length) data
                arrived := s.arrived ++ if success then data else [] },
              [.recvCompletion success data.length])
          else none
  | .sendCompletion index success bytesTransferred =>
      s.arriveSend (.sendCompletion index success bytesTransferred)

inductive Shared.Arrived (s : Shared) : Event → Shared → List Frame → Prop where
  | startReceiveLoop : Arrived s .startReceiveLoop s [.startReceiveLoop]
  | send {event : Event} {sent : Rio.Event} {shared : Rio.Shared} {t : Option Rio.Frame}
      (hsent : s.toShared.arrive sent = some (shared, t)) :
      Arrived s event { s with toShared := shared } (t.toList.map .send)
  | recvCompletion {index : Nat} {success : Bool} {data : List Byte} {buf : RioBuf}
      (hpending : s.rioReceives[index]? = some buf) (hlength : data.length ≤ buf.length) :
      Arrived s (.recvCompletion index success data)
        { s with
          rioReceives := s.rioReceives.eraseIdx index
          receiveBuffer := s.receiveBuffer.fill
            (List.range' (buf.offset - s.recvSlice.offset) buf.length) data
          arrived := s.arrived ++ if success then data else [] }
        [.recvCompletion success data.length]

theorem Shared.arrived_of_arrive {s s' : Shared} {event : Event} {fs : List Frame}
    (h : s.arrive event = some (s', fs)) : s.Arrived event s' fs := by
  have hsend : ∀ sent, s.arriveSend sent = some (s', fs) → s.Arrived event s' fs := by
    intro sent hsent
    obtain ⟨⟨shared, t⟩, harrived, hr⟩ := Option.map_eq_some_iff.mp hsent
    cases hr
    exact .send harrived
  cases event with
  | startReceiveLoop =>
    cases h
    exact .startReceiveLoop
  | sendMessage m => exact hsend _ h
  | sendCompletion index success n => exact hsend _ h
  | recvCompletion index success data =>
    simp only [arrive] at h
    split at h
    · cases h
    · rename_i hpending
      split at h
      · rename_i hlength
        cases h
        exact .recvCompletion hpending hlength
      · cases h

def program : Program Shared Frame Choice Event where
  start s := ∃ recvSlice sendSlice recvMemory sendMemory,
    recvMemory.length = recvSlice.length ∧ sendMemory.length = sendSlice.length ∧
      s = Shared.initial recvSlice sendSlice recvMemory sendMemory
  exec choice s f := f.exec choice s
  arrive event s := s.arrive event

abbrev World := Stacks Shared Frame
abbrev Label := Move Choice Event

def system : System World Label := program.system

variable {ok : World → Label → Prop}

/-- A session over slices of the given lengths. -/
def World.fresh (recvLength sendLength : Nat) (hfits : 4096 + recvLength < 2 ^ 32)
    (hfits' : 65536 + sendLength < 2 ^ 32) : World :=
  ⟨Shared.initial ⟨4096, recvLength, hfits⟩ ⟨65536, sendLength, hfits'⟩
    (List.replicate recvLength 0) (List.replicate sendLength 0), []⟩

theorem World.reach_fresh {recvLength sendLength : Nat} (hfits : 4096 + recvLength < 2 ^ 32)
    (hfits' : 65536 + sendLength < 2 ^ 32) :
    system.Reach ok (World.fresh recvLength sendLength hfits hfits') :=
  .init ⟨⟨_, _, _, _, List.length_replicate, List.length_replicate, rfl⟩, rfl⟩

end FastPort.Sessions.Rio.Duplex
