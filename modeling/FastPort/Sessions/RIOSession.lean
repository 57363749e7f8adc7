import FastPort.Sessions.SendPath
import FastPort.Foundation.Pool

/-! The send side of `RIOSession`. Each critical section of `m_SendQueueMutex` is
one step, and so is each access to an atomic outside of them. -/
namespace FastPort.Sessions.Rio

open FastPort.Commons FastPort.Foundation.Circular FastPort.Foundation.Pool
open FastPort.Foundation.Tally FastPort.Foundation.Transition

structure RioBufferSlice where
  offset : Nat
  length : Nat
  fits : offset + length < 2 ^ 32

structure RioBuf where
  offset : Nat
  length : Nat
deriving DecidableEq

structure PendingPacket where
  data : List Byte
  offset : Nat
deriving DecidableEq

def maxPendingBytes : Nat := 10 * 1024 * 1024

/-- The members of `RIOSession` that sending uses. -/
structure RIOSession where
  isDisconnected : Bool
  sendInProgress : Bool
  pendingSendQueue : List PendingPacket
  pendingTotalBytes : Nat
  totalTxBytes : UInt64
  sendSlice : RioBufferSlice
  sendBuffer : ExternalCircleBufferQueue

/-- A send the request queue holds, with the bytes its range had when it was
posted. -/
structure RioSend where
  buf : RioBuf
  posted : List Byte

structure History where
  rioSends : List RioSend
  accepted : List Message
  consumed : List Byte
  transferred : List Byte
  disconnections : Nat

structure Shared extends RIOSession, History

/-- The session over a slice and the memory it names. -/
def Shared.initial (sendSlice : RioBufferSlice) (memory : List Byte) : Shared where
  isDisconnected := false
  sendInProgress := false
  pendingSendQueue := []
  pendingTotalBytes := 0
  totalTxBytes := 0
  sendSlice := sendSlice
  sendBuffer := ExternalCircleBufferQueue.create memory
  rioSends := []
  accepted := []
  consumed := []
  transferred := []
  disconnections := 0

/-- The bytes of the slice that a range of the registered buffer covers. -/
def Shared.read (s : Shared) (buf : RioBuf) : List Byte :=
  s.sendBuffer.read (List.range' (buf.offset - s.sendSlice.offset) buf.length)

def packetData (m : Message) : List Byte :=
  m.sizeBytes ++ m.idBytes ++ m.body

/-- The copy loop of `FlushPendingSendQueue`: the ring after it, and how much it
has written. -/
def copyToSpans (q : RingBuffer) : List Span → List Byte → Nat → RingBuffer × Nat
  | [], _, _ => (q, 0)
  | span :: rest, src, remainingCopy =>
      if remainingCopy = 0 then (q, 0)
      else
        let copySize := min remainingCopy span.length
        let r := copyToSpans (q.fill (List.range' span.offset copySize) (src.take copySize)) rest
          (src.drop copySize) (remainingCopy - copySize)
        (r.1, copySize + r.2)

/-- The loop of `FlushPendingSendQueue`, over the ring, `m_PendingTotalBytes` and
the queue. -/
def flushQueue (q : RingBuffer) (pendingTotalBytes : Nat) :
    List PendingPacket → RingBuffer × Nat × List PendingPacket
  | [] => (q, pendingTotalBytes, [])
  | pending :: rest =>
      let remainingInPacket := pending.data.length - pending.offset
      let writable := q.getWriteableBuffers
      if writable.1 = 0 then (q, pendingTotalBytes, pending :: rest)
      else
        let toWrite := min remainingInPacket writable.1
        let copied := copyToSpans q writable.2 (pending.data.drop pending.offset) toWrite
        let q' := (copied.1.commitWrite copied.2).getD copied.1
        let offset := pending.offset + copied.2
        if offset ≥ pending.data.length then
          flushQueue q' (pendingTotalBytes - pending.data.length) rest
        else (q', pendingTotalBytes, ⟨pending.data, offset⟩ :: rest)

def tryPostSendFromQueue (accepted : Bool) (s : Shared) : Shared :=
  if s.sendInProgress then s
  else
    let readBuffers := s.sendBuffer.getReadBuffers
    if readBuffers.1 = 0 then s
    else
      let first := readBuffers.2.headD ⟨0, 0⟩
      let buf : RioBuf :=
        ⟨(s.sendSlice.offset + first.offset % 2 ^ 32) % 2 ^ 32, first.length % 2 ^ 32⟩
      if accepted then
        { s with sendInProgress := true, rioSends := s.rioSends ++ [⟨buf, s.read buf⟩] }
      else s

/-- The critical section of `FlushPendingSendQueue`, with the attempt to post at
its end. -/
def flushPendingSendQueue (accepted : Bool) (s : Shared) : Shared :=
  let r := flushQueue s.sendBuffer s.pendingTotalBytes s.pendingSendQueue
  tryPostSendFromQueue accepted
    { s with sendBuffer := r.1, pendingTotalBytes := r.2.1, pendingSendQueue := r.2.2 }

/-- The critical section of `SendMessage`: straight into the ring when nothing is
queued and there is room, else to the end of the queue. -/
def enqueue (m : Message) (s : Shared) : Shared :=
  let queued := { s with
    pendingSendQueue := s.pendingSendQueue ++ [⟨packetData m, 0⟩]
    pendingTotalBytes := s.pendingTotalBytes + m.totalSize
    accepted := s.accepted ++ [m] }
  if s.pendingSendQueue.isEmpty && decide (s.sendBuffer.canWriteSize ≥ m.totalSize) then
    match s.sendBuffer.write (packetData m) with
    | some q => { s with sendBuffer := q, accepted := s.accepted ++ [m] }
    | none => queued
  else queued

/-- The critical section of a successful send completion. -/
def consume (bytesTransferred : Nat) (s : Shared) : Shared :=
  { s with
    sendBuffer := (s.sendBuffer.consume bytesTransferred).getD s.sendBuffer
    consumed := s.consumed ++ s.sendBuffer.content.take bytesTransferred
    sendInProgress := false
    totalTxBytes := s.totalTxBytes + UInt64.ofNat bytesTransferred }

inductive Frame where
  | checkDisconnected (m : Message)
  | checkPending (m : Message)
  | enqueue (m : Message)
  | flushPendingSendQueue
  | sendCompletion (success : Bool) (bytesTransferred : Nat)
  | consume (bytesTransferred : Nat)
  | disconnect
  | onDisconnected

/-- One step; `accepted` says whether the `RIOSend` it makes, if any, goes through. -/
def Frame.exec (accepted : Bool) (s : Shared) : Frame → Shared × Option Frame
  | checkDisconnected m => (s, if s.isDisconnected then none else some (checkPending m))
  | checkPending m =>
      (s, some (if s.pendingTotalBytes > maxPendingBytes then disconnect else enqueue m))
  | enqueue m => (Rio.enqueue m s, some flushPendingSendQueue)
  | flushPendingSendQueue => (Rio.flushPendingSendQueue accepted s, none)
  | sendCompletion success bytesTransferred =>
      (s, some (if success then consume bytesTransferred else disconnect))
  | consume bytesTransferred => (Rio.consume bytesTransferred s, some flushPendingSendQueue)
  | disconnect => ({ s with isDisconnected := true }, some onDisconnected)
  | onDisconnected => ({ s with disconnections := s.disconnections + 1 }, none)

/-- A caller of `SendMessage`, the completion of a send, or the failed completion
of a receive. -/
inductive Event where
  | sendMessage (m : Message)
  | sendCompletion (index : Nat) (success : Bool) (bytesTransferred : Nat)
  | receiveFailed

/-- The environment starts a thread. A successful send has transferred the first
bytes of its range. -/
def Shared.arrive (s : Shared) : Event → Option (Shared × Option Frame)
  | .sendMessage m => some (s, some (.checkDisconnected m))
  | .sendCompletion index success bytesTransferred =>
      match s.rioSends[index]? with
      | none => none
      | some send =>
          if bytesTransferred ≤ send.buf.length then
            some ({ s with
                rioSends := s.rioSends.eraseIdx index
                transferred := s.transferred ++
                  if success then (s.read send.buf).take bytesTransferred else [] },
              some (.sendCompletion success bytesTransferred))
          else none
  | .receiveFailed => some (s, some .disconnect)

def machine : Machine Shared (Option Frame) Bool Event where
  start s := ∃ sendSlice memory, memory.length = sendSlice.length ∧
    s = Shared.initial sendSlice memory
  run accepted s t := t.map fun f => f.exec accepted s
  spawn event s := s.arrive event

abbrev World := State Shared (Option Frame)

def system : System World (Move Bool Event) := machine.system

end FastPort.Sessions.Rio
