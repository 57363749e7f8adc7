import FastPort.Sessions.SendPath

/-! `IOSession` and the part `OutboundSession` adds to it, one definition for
each member function. A function runs as a sequence of atomic steps: every
atomic load, store, exchange or addition, every call on a ring buffer (each
takes the ring's lock), every Winsock call and every entry into user code is a
step of its own. A step is a function of the shared state; it answers with the
new state and the frames that replace the one that ran, so a call pushes a frame
and a return pops one. -/
namespace FastPort.Sessions

open FastPort.Commons FastPort.Core FastPort.Foundation.Circular

/-- `m_pSocket`: no socket, an open handle, or `INVALID_SOCKET`. -/
inductive SocketState where
  | null
  | opened
  | closed
deriving DecidableEq, Repr

structure OverlappedEx where
  wsaBufs : List Span
  requestedBytes : Nat
  isZeroByte : Bool
deriving DecidableEq

/-- The members of `IOSession`, and `m_ConnectIoPending` of `OutboundSession`. -/
structure IOSession where
  receiveLoopStarted : Bool
  recvInProgress : Bool
  sendInProgress : Bool
  disconnectRequested : Bool
  outstandingIoCount : Int
  onDisconnectedFired : Bool
  lastRecvTimeMs : Int
  totalRxBytes : UInt64
  totalTxBytes : UInt64
  receiveBuffer : CircleBufferQueue
  sendBuffer : CircleBufferQueue
  recvOverlapped : OverlappedEx
  sendOverlapped : OverlappedEx
  connectIoPending : Bool
  socket : SocketState

structure Kernel where
  recvs : List (List Span)
  sends : List (List Span)
  connects : Nat

inductive Effect where
  | shutdown
  | closed
  | onConnected
  | onPacketReceived (packet : Packet)
  | onSent (bytesSent : Nat)
  | onDisconnected
deriving DecidableEq

structure History where
  accepted : List Message
  transferred : List Byte
  receivePosted : Bool
  connectStarted : Bool
  log : List Effect

structure Shared extends IOSession, Kernel, History

def Shared.initial (receiveBuffer sendBuffer : CircleBufferQueue) (socket : SocketState) :
    Shared where
  receiveLoopStarted := false
  recvInProgress := false
  sendInProgress := false
  disconnectRequested := false
  outstandingIoCount := 0
  onDisconnectedFired := false
  lastRecvTimeMs := 0
  totalRxBytes := 0
  totalTxBytes := 0
  receiveBuffer := receiveBuffer
  sendBuffer := sendBuffer
  recvOverlapped := ⟨[], 0, false⟩
  sendOverlapped := ⟨[], 0, false⟩
  connectIoPending := false
  socket := socket
  recvs := []
  sends := []
  connects := 0
  accepted := []
  transferred := []
  receivePosted := false
  connectStarted := false
  log := []

inductive ApiCall where
  | sendMessage (m : Message)
  | startReceiveLoop
  | requestReceived
  | requestDisconnect
deriving DecidableEq

/-- What a step cannot decide for itself: whether the Winsock call it makes goes
through, what the clock shows, and which call user code makes next, if any. -/
structure Choice where
  accepted : Bool
  nowMs : Int
  call : Option ApiCall
deriving DecidableEq

inductive CallbackKind where
  | onConnected
  | onPacketReceived
  | onSent
  | onDisconnected
deriving DecidableEq, Repr

inductive SendMessagePc where
  | checkDisconnect
  | allocateWrite
  | writeSize (buffers : List Span)
  | writeId (buffers : List Span) (offsetInSpan : Nat)
  | writeBody (buffers : List Span) (offsetInSpan : Nat)

inductive TryPostSendPc where
  | checkDisconnect
  | claim
  | getReadBuffers
  | prepare (bytesToSend : Nat) (buffers : List Span)
  | addOutstanding
  | wsaSend
  | undo
  | release

inductive StartReceiveLoopPc where
  | checkDisconnect
  | claim

inductive RequestReceivedPc where
  | checkDisconnect
  | claim
  | release
  | disconnect

inductive RequestRecvPc where
  | prepare
  | addOutstanding
  | wsaRecv
  | undo

inductive RecvCompletionPc where
  | start (success : Bool) (bytesTransferred : Nat)
  | commitWrite (bytesTransferred : Nat)
  | stamp (bytesTransferred : Nat)
  | addRxBytes (bytesTransferred : Nat)
  | checkDisconnect
  | rearm
  | drop
  | release
  | disconnect

inductive ReadReceivedPc where
  | checkDisconnect
  | canRead
  | peek (canRead : Nat)
  | pop (packetSize : Nat)
  | checkPacket (packet : Packet)
  | deliver (packet : Packet)

inductive SendCompletionPc where
  | start (success : Bool) (bytesTransferred : Nat)
  | consume (bytesTransferred : Nat)
  | addTxBytes (bytesTransferred : Nat)
  | checkDisconnect (bytesTransferred : Nat)
  | onSent (bytesTransferred : Nat)
  | canRead
  | checkRepost

inductive RequestDisconnectPc where
  | claim
  | shutdown
  | close
  | releaseRecv
  | releaseSend
  | loadOutstanding

inductive TryFirePc where
  | claim
  | clearReceive
  | clearSend
  | onDisconnected

inductive ConnectCompletionPc where
  | start (success : Bool)
  | checkDisconnect (success : Bool)
  | update
  | onConnected

inductive ConnectExPc where
  | addOutstanding
  | setPending
  | connectEx
  | clearPending
  | undo

inductive Frame where
  | sendMessage (m : Message) (pc : SendMessagePc)
  | tryPostSendFromQueue (pc : TryPostSendPc)
  | startReceiveLoop (pc : StartReceiveLoopPc)
  | requestReceived (pc : RequestReceivedPc)
  | requestRecv (zeroByte : Bool) (pc : RequestRecvPc)
  | handleRecvCompletion (pc : RecvCompletionPc)
  | readReceivedBuffers (pc : ReadReceivedPc)
  | handleSendCompletion (pc : SendCompletionPc)
  | requestDisconnect (pc : RequestDisconnectPc)
  | tryFireOnDisconnected (pc : TryFirePc)
  | handleConnectCompletion (pc : ConnectCompletionPc)
  | connectEx (pc : ConnectExPc)
  | guardCheck
  | callback (kind : CallbackKind)

def ApiCall.frame : ApiCall → Frame
  | .sendMessage m => .sendMessage m .checkDisconnect
  | .startReceiveLoop => .startReceiveLoop .checkDisconnect
  | .requestReceived => .requestReceived .checkDisconnect
  | .requestDisconnect => .requestDisconnect .claim

def wsaBuf (span : Span) : Span :=
  ⟨span.offset, span.length % 2 ^ 32⟩

theorem map_wsaBuf {spans : List Span} (h : ∀ span ∈ spans, span.length < 2 ^ 32) :
    spans.map wsaBuf = spans := by
  refine (List.map_congr_left fun span hspan => ?_).trans (List.map_id _)
  rw [wsaBuf, Nat.mod_eq_of_lt (h span hspan), id]

def Shared.posts (s : Shared) (choice : Choice) : Bool :=
  choice.accepted && s.socket == .opened

/-- The first exchange of `RequestDisconnect`. A caller that lost it goes on to
the load of the counter. -/
def requestDisconnectClaim (s : Shared) : Shared × List Frame :=
  if s.disconnectRequested then (s, [.requestDisconnect .loadOutstanding])
  else
    ({ s with disconnectRequested := true },
      [.requestDisconnect (if s.socket = .null then .releaseRecv else .shutdown)])

def sendMessage (m : Message) (s : Shared) : SendMessagePc → Shared × List Frame
  | .checkDisconnect =>
      if s.disconnectRequested then (s, []) else (s, [.sendMessage m .allocateWrite])
  | .allocateWrite =>
      match s.sendBuffer.allocateWrite m.totalSize with
      | none => (s, [.requestDisconnect .claim])
      | some (buffers, q) =>
          ({ s with sendBuffer := q, accepted := s.accepted ++ [m] },
            [.sendMessage m (.writeSize buffers)])
  | .writeSize buffers =>
      let r := writeToBuffers s.sendBuffer buffers 0 m.sizeBytes
      ({ s with sendBuffer := r.1 }, [.sendMessage m (.writeId r.2.1 r.2.2)])
  | .writeId buffers offsetInSpan =>
      let r := writeToBuffers s.sendBuffer buffers offsetInSpan m.idBytes
      ({ s with sendBuffer := r.1 }, [.sendMessage m (.writeBody r.2.1 r.2.2)])
  | .writeBody buffers offsetInSpan =>
      ({ s with sendBuffer := writeBody s.sendBuffer buffers offsetInSpan m.body },
        [.tryPostSendFromQueue .checkDisconnect])

def tryPostSendFromQueue (choice : Choice) (s : Shared) : TryPostSendPc → Shared × List Frame
  | .checkDisconnect =>
      if s.disconnectRequested then (s, []) else (s, [.tryPostSendFromQueue .claim])
  | .claim =>
      if s.sendInProgress then (s, [])
      else ({ s with sendInProgress := true }, [.tryPostSendFromQueue .getReadBuffers])
  | .getReadBuffers =>
      let r := s.sendBuffer.getReadBuffers
      if r.1 = 0 then (s, [.tryPostSendFromQueue .release])
      else (s, [.tryPostSendFromQueue (.prepare r.1 r.2)])
  | .prepare bytesToSend buffers =>
      let s' := { s with
        sendOverlapped := ⟨buffers.map wsaBuf, bytesToSend, s.sendOverlapped.isZeroByte⟩ }
      if s.socket = .null then (s', [.tryPostSendFromQueue .release])
      else (s', [.tryPostSendFromQueue .addOutstanding])
  | .addOutstanding =>
      ({ s with outstandingIoCount := s.outstandingIoCount + 1 },
        [.tryPostSendFromQueue .wsaSend])
  | .wsaSend =>
      if s.posts choice then ({ s with sends := s.sends ++ [s.sendOverlapped.wsaBufs] }, [])
      else (s, [.tryPostSendFromQueue .undo])
  | .undo =>
      ({ s with outstandingIoCount := s.outstandingIoCount - 1 },
        [.tryPostSendFromQueue .release])
  | .release => ({ s with sendInProgress := false }, [])

def startReceiveLoop (s : Shared) : StartReceiveLoopPc → Shared × List Frame
  | .checkDisconnect =>
      if s.disconnectRequested then (s, []) else (s, [.startReceiveLoop .claim])
  | .claim =>
      if s.receiveLoopStarted then (s, [])
      else ({ s with receiveLoopStarted := true }, [.requestReceived .checkDisconnect])

def requestReceived (s : Shared) : RequestReceivedPc → Shared × List Frame
  | .checkDisconnect =>
      if s.disconnectRequested then (s, []) else (s, [.requestReceived .claim])
  | .claim =>
      if s.recvInProgress then (s, [])
      else ({ s with recvInProgress := true }, [.requestRecv true .prepare])
  | .release => ({ s with recvInProgress := false }, [.requestReceived .disconnect])
  | .disconnect => requestDisconnectClaim s

/-- The caller of `RequestRecv` when it returns false: `RequestReceived` posts
the zero-byte receives, `HandleZeroByteRecvCompletion` the real ones. Both give
up the flag and request the disconnect. -/
def requestRecvFailed (zeroByte : Bool) : Frame :=
  if zeroByte then .requestReceived .release else .handleRecvCompletion .drop

def requestRecv (zeroByte : Bool) (choice : Choice) (s : Shared) :
    RequestRecvPc → Shared × List Frame
  | .prepare =>
      let requested := s.recvOverlapped.requestedBytes
      if zeroByte then
        ({ s with recvOverlapped := ⟨[⟨0, 0⟩], requested, true⟩ },
          [if s.socket = .null then requestRecvFailed zeroByte
            else .requestRecv zeroByte .addOutstanding])
      else
        let r := s.receiveBuffer.getWriteableBuffers
        if r.1 = 0 then
          ({ s with recvOverlapped := ⟨[], requested, false⟩ },
            [.requestDisconnect .claim, requestRecvFailed zeroByte])
        else
          ({ s with recvOverlapped := ⟨r.2.map wsaBuf, requested, false⟩ },
            [if s.socket = .null then requestRecvFailed zeroByte
              else .requestRecv zeroByte .addOutstanding])
  | .addOutstanding =>
      ({ s with outstandingIoCount := s.outstandingIoCount + 1 },
        [.requestRecv zeroByte .wsaRecv])
  | .wsaRecv =>
      if s.posts choice then
        ({ s with recvs := s.recvs ++ [s.recvOverlapped.wsaBufs], receivePosted := true }, [])
      else (s, [.requestRecv zeroByte .undo])
  | .undo =>
      ({ s with outstandingIoCount := s.outstandingIoCount - 1 }, [requestRecvFailed zeroByte])

/-- `HandleRecvCompletion` with its two branches, `HandleZeroByteRecvCompletion`
and `HandleRealRecvCompletion`. -/
def handleRecvCompletion (choice : Choice) (s : Shared) : RecvCompletionPc → Shared × List Frame
  | .start success bytesTransferred =>
      if !success then (s, [.handleRecvCompletion .drop])
      else if s.recvOverlapped.isZeroByte then
        if bytesTransferred = 0 then (s, [.requestRecv false .prepare])
        else (s, [.handleRecvCompletion .release])
      else if bytesTransferred = 0 then (s, [.handleRecvCompletion .drop])
      else (s, [.handleRecvCompletion (.commitWrite bytesTransferred)])
  | .commitWrite bytesTransferred =>
      match s.receiveBuffer.commitWrite bytesTransferred with
      | none => (s, [.handleRecvCompletion .drop])
      | some q =>
          ({ s with receiveBuffer := q }, [.handleRecvCompletion (.stamp bytesTransferred)])
  | .stamp bytesTransferred =>
      ({ s with lastRecvTimeMs := choice.nowMs },
        [.handleRecvCompletion (.addRxBytes bytesTransferred)])
  | .addRxBytes bytesTransferred =>
      ({ s with totalRxBytes := s.totalRxBytes + UInt64.ofNat bytesTransferred },
        [.handleRecvCompletion .checkDisconnect])
  | .checkDisconnect =>
      if s.disconnectRequested then (s, [.handleRecvCompletion .release])
      else (s, [.readReceivedBuffers .checkDisconnect, .handleRecvCompletion .rearm])
  | .rearm => ({ s with recvInProgress := false }, [.requestReceived .checkDisconnect])
  | .drop => ({ s with recvInProgress := false }, [.handleRecvCompletion .disconnect])
  | .release => ({ s with recvInProgress := false }, [])
  | .disconnect => requestDisconnectClaim s

def readReceivedBuffers (s : Shared) : ReadReceivedPc → Shared × List Frame
  | .checkDisconnect =>
      if s.disconnectRequested then (s, []) else (s, [.readReceivedBuffers .canRead])
  | .canRead =>
      let canRead := s.receiveBuffer.canReadSize
      if canRead < getHeaderSize then (s, [])
      else (s, [.readReceivedBuffers (.peek canRead)])
  | .peek canRead =>
      match s.receiveBuffer.peek getHeaderSize with
      | none => (s, [.requestDisconnect .claim])
      | some header =>
          match PacketFramer.checkHeader canRead header with
          | .invalid => (s, [.requestDisconnect .claim])
          | .needMore => (s, [])
          | .frame packetSize => (s, [.readReceivedBuffers (.pop packetSize)])
  | .pop packetSize =>
      match s.receiveBuffer.pop packetSize with
      | none => (s, [.requestDisconnect .claim])
      | some (buffers, q) =>
          ({ s with receiveBuffer := q },
            [.readReceivedBuffers (.checkPacket (Packet.ofRaw buffers))])
  | .checkPacket packet =>
      if s.disconnectRequested then (s, []) else (s, [.readReceivedBuffers (.deliver packet)])
  | .deliver packet =>
      ({ s with log := s.log ++ [.onPacketReceived packet] },
        [.callback .onPacketReceived, .readReceivedBuffers .checkDisconnect])

def handleSendCompletion (s : Shared) : SendCompletionPc → Shared × List Frame
  | .start success bytesTransferred =>
      ({ s with sendInProgress := false },
        [if success then .handleSendCompletion (.consume bytesTransferred)
          else .requestDisconnect .claim])
  | .consume bytesTransferred =>
      ({ s with sendBuffer := (s.sendBuffer.consume bytesTransferred).getD s.sendBuffer },
        [.handleSendCompletion (.addTxBytes bytesTransferred)])
  | .addTxBytes bytesTransferred =>
      ({ s with totalTxBytes := s.totalTxBytes + UInt64.ofNat bytesTransferred },
        [.handleSendCompletion (.checkDisconnect bytesTransferred)])
  | .checkDisconnect bytesTransferred =>
      if s.disconnectRequested then (s, [])
      else (s, [.handleSendCompletion (.onSent bytesTransferred)])
  | .onSent bytesTransferred =>
      ({ s with log := s.log ++ [.onSent bytesTransferred] },
        [.callback .onSent, .handleSendCompletion .canRead])
  | .canRead =>
      if s.sendBuffer.canReadSize > 0 then (s, [.handleSendCompletion .checkRepost]) else (s, [])
  | .checkRepost =>
      if s.disconnectRequested then (s, []) else (s, [.tryPostSendFromQueue .checkDisconnect])

def requestDisconnect (s : Shared) : RequestDisconnectPc → Shared × List Frame
  | .claim => requestDisconnectClaim s
  | .shutdown => ({ s with log := s.log ++ [.shutdown] }, [.requestDisconnect .close])
  | .close =>
      ({ s with socket := .closed, log := s.log ++ [.closed] }, [.requestDisconnect .releaseRecv])
  | .releaseRecv => ({ s with recvInProgress := false }, [.requestDisconnect .releaseSend])
  | .releaseSend => ({ s with sendInProgress := false }, [.requestDisconnect .loadOutstanding])
  | .loadOutstanding =>
      if s.outstandingIoCount = 0 then (s, [.tryFireOnDisconnected .claim]) else (s, [])

def tryFireOnDisconnected (s : Shared) : TryFirePc → Shared × List Frame
  | .claim =>
      if s.onDisconnectedFired then (s, [])
      else ({ s with onDisconnectedFired := true }, [.tryFireOnDisconnected .clearReceive])
  | .clearReceive =>
      ({ s with receiveBuffer := s.receiveBuffer.clear }, [.tryFireOnDisconnected .clearSend])
  | .clearSend =>
      ({ s with sendBuffer := s.sendBuffer.clear }, [.tryFireOnDisconnected .onDisconnected])
  | .onDisconnected =>
      ({ s with log := s.log ++ [.onDisconnected] }, [.callback .onDisconnected])

/-- The connect branch of `OutboundSession::OnIOCompleted`, with
`FinalizeConnect` and `OnConnected`. -/
def handleConnectCompletion (choice : Choice) (s : Shared) :
    ConnectCompletionPc → Shared × List Frame
  | .start success =>
      ({ s with connectIoPending := false }, [.handleConnectCompletion (.checkDisconnect success)])
  | .checkDisconnect success =>
      if s.disconnectRequested then (s, [])
      else if !success then (s, [.requestDisconnect .claim])
      else (s, [.handleConnectCompletion .update])
  | .update =>
      if choice.accepted then (s, [.handleConnectCompletion .onConnected])
      else (s, [.requestDisconnect .claim])
  | .onConnected =>
      ({ s with log := s.log ++ [.onConnected] },
        [.startReceiveLoop .checkDisconnect, .callback .onConnected])

/-- `IOSocketConnector::ConnectEx` from `MarkConnectIoPosted` on; when it fails,
the connector disconnects the session. -/
def connectEx (choice : Choice) (s : Shared) : ConnectExPc → Shared × List Frame
  | .addOutstanding =>
      ({ s with outstandingIoCount := s.outstandingIoCount + 1 }, [.connectEx .setPending])
  | .setPending => ({ s with connectIoPending := true }, [.connectEx .connectEx])
  | .connectEx =>
      if s.posts choice then ({ s with connects := s.connects + 1 }, [])
      else (s, [.connectEx .clearPending])
  | .clearPending => ({ s with connectIoPending := false }, [.connectEx .undo])
  | .undo =>
      ({ s with outstandingIoCount := s.outstandingIoCount - 1 }, [.requestDisconnect .claim])

namespace Frame

def exec (choice : Choice) (s : Shared) : Frame → Shared × List Frame
  | sendMessage m pc => Sessions.sendMessage m s pc
  | tryPostSendFromQueue pc => Sessions.tryPostSendFromQueue choice s pc
  | startReceiveLoop pc => Sessions.startReceiveLoop s pc
  | requestReceived pc => Sessions.requestReceived s pc
  | requestRecv zeroByte pc => Sessions.requestRecv zeroByte choice s pc
  | handleRecvCompletion pc => Sessions.handleRecvCompletion choice s pc
  | readReceivedBuffers pc => Sessions.readReceivedBuffers s pc
  | handleSendCompletion pc => Sessions.handleSendCompletion s pc
  | requestDisconnect pc => Sessions.requestDisconnect s pc
  | tryFireOnDisconnected pc => Sessions.tryFireOnDisconnected s pc
  | handleConnectCompletion pc => Sessions.handleConnectCompletion choice s pc
  | connectEx pc => Sessions.connectEx choice s pc
  | guardCheck =>
      if s.disconnectRequested then (s, [tryFireOnDisconnected .claim]) else (s, [])
  | callback kind =>
      match choice.call with
      | none => (s, [])
      | some call => (s, [call.frame, callback kind])

end Frame

end FastPort.Sessions
