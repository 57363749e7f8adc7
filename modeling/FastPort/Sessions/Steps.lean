import FastPort.Sessions.IOSession

/-! What one step of a frame can do, as one relation with a constructor for each
way a step can end. Invariants are proved by cases on it. -/
namespace FastPort.Sessions

open FastPort.Commons FastPort.Core

namespace Frame

inductive Steps (choice : Choice) (s : Shared) : Frame → Shared → List Frame → Prop where
  | sendRefused {m : Message} (hdisc : s.disconnectRequested = true) :
      Steps choice s (.sendMessage m .checkDisconnect) s []
  | sendAllowed {m : Message} (hdisc : s.disconnectRequested = false) :
      Steps choice s (.sendMessage m .checkDisconnect) s [.sendMessage m .allocateWrite]
  | allocateFailed {m : Message} (hfull : s.sendBuffer.allocateWrite m.totalSize = none) :
      Steps choice s (.sendMessage m .allocateWrite) s [.requestDisconnect .claim]
  | allocated {m : Message} {buffers : List Span} {q : CircleBufferQueue}
      (hroom : s.sendBuffer.allocateWrite m.totalSize = some (buffers, q)) :
      Steps choice s (.sendMessage m .allocateWrite)
        { s with sendBuffer := q, accepted := s.accepted ++ [m] }
        [.sendMessage m (.writeSize buffers)]
  | wroteSize {m : Message} {buffers : List Span} :
      Steps choice s (.sendMessage m (.writeSize buffers))
        { s with sendBuffer := (writeToBuffers s.sendBuffer buffers 0 m.sizeBytes).1 }
        [.sendMessage m (.writeId (writeToBuffers s.sendBuffer buffers 0 m.sizeBytes).2.1
          (writeToBuffers s.sendBuffer buffers 0 m.sizeBytes).2.2)]
  | wroteId {m : Message} {buffers : List Span} {off : Nat} :
      Steps choice s (.sendMessage m (.writeId buffers off))
        { s with sendBuffer := (writeToBuffers s.sendBuffer buffers off m.idBytes).1 }
        [.sendMessage m (.writeBody (writeToBuffers s.sendBuffer buffers off m.idBytes).2.1
          (writeToBuffers s.sendBuffer buffers off m.idBytes).2.2)]
  | wroteBody {m : Message} {buffers : List Span} {off : Nat} :
      Steps choice s (.sendMessage m (.writeBody buffers off))
        { s with sendBuffer := writeBody s.sendBuffer buffers off m.body }
        [.tryPostSendFromQueue .checkDisconnect]
  | postRefused (hdisc : s.disconnectRequested = true) :
      Steps choice s (.tryPostSendFromQueue .checkDisconnect) s []
  | postAllowed (hdisc : s.disconnectRequested = false) :
      Steps choice s (.tryPostSendFromQueue .checkDisconnect) s [.tryPostSendFromQueue .claim]
  | sendBusy (hbusy : s.sendInProgress = true) :
      Steps choice s (.tryPostSendFromQueue .claim) s []
  | sendClaimed (hfree : s.sendInProgress = false) :
      Steps choice s (.tryPostSendFromQueue .claim) { s with sendInProgress := true }
        [.tryPostSendFromQueue .getReadBuffers]
  | nothingToSend (hempty : s.sendBuffer.size = 0) :
      Steps choice s (.tryPostSendFromQueue .getReadBuffers) s [.tryPostSendFromQueue .release]
  | gotReadBuffers (hsome : s.sendBuffer.size ≠ 0) :
      Steps choice s (.tryPostSendFromQueue .getReadBuffers) s
        [.tryPostSendFromQueue (.prepare s.sendBuffer.size s.sendBuffer.getReadBuffers.2)]
  | sendNoSocket {n : Nat} {buffers : List Span} (hsocket : s.socket = .null) :
      Steps choice s (.tryPostSendFromQueue (.prepare n buffers))
        { s with sendOverlapped := ⟨buffers.map wsaBuf, n, s.sendOverlapped.isZeroByte⟩ }
        [.tryPostSendFromQueue .release]
  | sendPrepared {n : Nat} {buffers : List Span} (hsocket : s.socket ≠ .null) :
      Steps choice s (.tryPostSendFromQueue (.prepare n buffers))
        { s with sendOverlapped := ⟨buffers.map wsaBuf, n, s.sendOverlapped.isZeroByte⟩ }
        [.tryPostSendFromQueue .addOutstanding]
  | sendAdded :
      Steps choice s (.tryPostSendFromQueue .addOutstanding)
        { s with outstandingIoCount := s.outstandingIoCount + 1 } [.tryPostSendFromQueue .wsaSend]
  | sendPosted (hposts : s.posts choice = true) :
      Steps choice s (.tryPostSendFromQueue .wsaSend)
        { s with sends := s.sends ++ [s.sendOverlapped.wsaBufs] } []
  | sendFailed (hposts : s.posts choice = false) :
      Steps choice s (.tryPostSendFromQueue .wsaSend) s [.tryPostSendFromQueue .undo]
  | sendUndone :
      Steps choice s (.tryPostSendFromQueue .undo)
        { s with outstandingIoCount := s.outstandingIoCount - 1 } [.tryPostSendFromQueue .release]
  | sendReleased :
      Steps choice s (.tryPostSendFromQueue .release) { s with sendInProgress := false } []
  | loopRefused (hdisc : s.disconnectRequested = true) :
      Steps choice s (.startReceiveLoop .checkDisconnect) s []
  | loopAllowed (hdisc : s.disconnectRequested = false) :
      Steps choice s (.startReceiveLoop .checkDisconnect) s [.startReceiveLoop .claim]
  | loopRunning (hstarted : s.receiveLoopStarted = true) :
      Steps choice s (.startReceiveLoop .claim) s []
  | loopStarted (hstarted : s.receiveLoopStarted = false) :
      Steps choice s (.startReceiveLoop .claim) { s with receiveLoopStarted := true }
        [.requestReceived .checkDisconnect]
  | receiveRefused (hdisc : s.disconnectRequested = true) :
      Steps choice s (.requestReceived .checkDisconnect) s []
  | receiveAllowed (hdisc : s.disconnectRequested = false) :
      Steps choice s (.requestReceived .checkDisconnect) s [.requestReceived .claim]
  | recvBusy (hbusy : s.recvInProgress = true) :
      Steps choice s (.requestReceived .claim) s []
  | recvClaimed (hfree : s.recvInProgress = false) :
      Steps choice s (.requestReceived .claim) { s with recvInProgress := true }
        [.requestRecv true .prepare]
  | recvReleased :
      Steps choice s (.requestReceived .release) { s with recvInProgress := false }
        [.requestReceived .disconnect]
  | zeroByteNoSocket (hsocket : s.socket = .null) :
      Steps choice s (.requestRecv true .prepare)
        { s with recvOverlapped := ⟨[⟨0, 0⟩], s.recvOverlapped.requestedBytes, true⟩ }
        [.requestReceived .release]
  | recvNoSocket (hsocket : s.socket = .null) (hroom : s.receiveBuffer.canWriteSize ≠ 0) :
      Steps choice s (.requestRecv false .prepare)
        { s with recvOverlapped := ⟨s.receiveBuffer.getWriteableBuffers.2.map wsaBuf,
          s.recvOverlapped.requestedBytes, false⟩ }
        [.handleRecvCompletion .drop]
  | zeroBytePrepared (hsocket : s.socket ≠ .null) :
      Steps choice s (.requestRecv true .prepare)
        { s with recvOverlapped := ⟨[⟨0, 0⟩], s.recvOverlapped.requestedBytes, true⟩ }
        [.requestRecv true .addOutstanding]
  | recvFull (hfull : s.receiveBuffer.canWriteSize = 0) :
      Steps choice s (.requestRecv false .prepare)
        { s with recvOverlapped := ⟨[], s.recvOverlapped.requestedBytes, false⟩ }
        [.requestDisconnect .claim, .handleRecvCompletion .drop]
  | recvPrepared (hsocket : s.socket ≠ .null) (hroom : s.receiveBuffer.canWriteSize ≠ 0) :
      Steps choice s (.requestRecv false .prepare)
        { s with recvOverlapped := ⟨s.receiveBuffer.getWriteableBuffers.2.map wsaBuf,
          s.recvOverlapped.requestedBytes, false⟩ }
        [.requestRecv false .addOutstanding]
  | recvAdded {zeroByte : Bool} :
      Steps choice s (.requestRecv zeroByte .addOutstanding)
        { s with outstandingIoCount := s.outstandingIoCount + 1 } [.requestRecv zeroByte .wsaRecv]
  | recvPosted {zeroByte : Bool} (hposts : s.posts choice = true) :
      Steps choice s (.requestRecv zeroByte .wsaRecv)
        { s with recvs := s.recvs ++ [s.recvOverlapped.wsaBufs], receivePosted := true } []
  | recvFailed {zeroByte : Bool} (hposts : s.posts choice = false) :
      Steps choice s (.requestRecv zeroByte .wsaRecv) s [.requestRecv zeroByte .undo]
  | zeroByteUndone :
      Steps choice s (.requestRecv true .undo)
        { s with outstandingIoCount := s.outstandingIoCount - 1 } [.requestReceived .release]
  | recvUndone :
      Steps choice s (.requestRecv false .undo)
        { s with outstandingIoCount := s.outstandingIoCount - 1 } [.handleRecvCompletion .drop]
  | recvCompletedBadly {n : Nat} :
      Steps choice s (.handleRecvCompletion (.start false n)) s [.handleRecvCompletion .drop]
  | zeroByteArrived (hzero : s.recvOverlapped.isZeroByte = true) :
      Steps choice s (.handleRecvCompletion (.start true 0)) s [.requestRecv false .prepare]
  | zeroByteCarried {n : Nat} (hzero : s.recvOverlapped.isZeroByte = true) (hn : n ≠ 0) :
      Steps choice s (.handleRecvCompletion (.start true n)) s [.handleRecvCompletion .release]
  | peerClosed (hzero : s.recvOverlapped.isZeroByte = false) :
      Steps choice s (.handleRecvCompletion (.start true 0)) s [.handleRecvCompletion .drop]
  | dataArrived {n : Nat} (hzero : s.recvOverlapped.isZeroByte = false) (hn : n ≠ 0) :
      Steps choice s (.handleRecvCompletion (.start true n)) s
        [.handleRecvCompletion (.commitWrite n)]
  | commitFailed {n : Nat} (hfull : s.receiveBuffer.commitWrite n = none) :
      Steps choice s (.handleRecvCompletion (.commitWrite n)) s [.handleRecvCompletion .drop]
  | committed {n : Nat} {q : CircleBufferQueue} (hroom : s.receiveBuffer.commitWrite n = some q) :
      Steps choice s (.handleRecvCompletion (.commitWrite n)) { s with receiveBuffer := q }
        [.handleRecvCompletion (.stamp n)]
  | stamped {n : Nat} :
      Steps choice s (.handleRecvCompletion (.stamp n)) { s with lastRecvTimeMs := choice.nowMs }
        [.handleRecvCompletion (.addRxBytes n)]
  | addedRxBytes {n : Nat} :
      Steps choice s (.handleRecvCompletion (.addRxBytes n))
        { s with totalRxBytes := s.totalRxBytes + UInt64.ofNat n }
        [.handleRecvCompletion .checkDisconnect]
  | recvDropped (hdisc : s.disconnectRequested = true) :
      Steps choice s (.handleRecvCompletion .checkDisconnect) s [.handleRecvCompletion .release]
  | recvRead (hdisc : s.disconnectRequested = false) :
      Steps choice s (.handleRecvCompletion .checkDisconnect) s
        [.readReceivedBuffers .checkDisconnect, .handleRecvCompletion .rearm]
  | rearmed :
      Steps choice s (.handleRecvCompletion .rearm) { s with recvInProgress := false }
        [.requestReceived .checkDisconnect]
  | dropped :
      Steps choice s (.handleRecvCompletion .drop) { s with recvInProgress := false }
        [.handleRecvCompletion .disconnect]
  | released :
      Steps choice s (.handleRecvCompletion .release) { s with recvInProgress := false } []
  | readRefused (hdisc : s.disconnectRequested = true) :
      Steps choice s (.readReceivedBuffers .checkDisconnect) s []
  | readAllowed (hdisc : s.disconnectRequested = false) :
      Steps choice s (.readReceivedBuffers .checkDisconnect) s [.readReceivedBuffers .canRead]
  | headerMissing (hshort : s.receiveBuffer.size < getHeaderSize) :
      Steps choice s (.readReceivedBuffers .canRead) s []
  | headerReadable (hlong : getHeaderSize ≤ s.receiveBuffer.size) :
      Steps choice s (.readReceivedBuffers .canRead) s
        [.readReceivedBuffers (.peek s.receiveBuffer.size)]
  | frameInvalid {canRead : Nat}
      (hinvalid : ∀ header, s.receiveBuffer.peek getHeaderSize = some header →
        PacketFramer.checkHeader canRead header = .invalid) :
      Steps choice s (.readReceivedBuffers (.peek canRead)) s [.requestDisconnect .claim]
  | frameIncomplete {canRead : Nat} {header : List Byte}
      (hpeek : s.receiveBuffer.peek getHeaderSize = some header)
      (hheader : PacketFramer.checkHeader canRead header = .needMore) :
      Steps choice s (.readReceivedBuffers (.peek canRead)) s []
  | frameComplete {canRead packetSize : Nat} {header : List Byte}
      (hpeek : s.receiveBuffer.peek getHeaderSize = some header)
      (hheader : PacketFramer.checkHeader canRead header = .frame packetSize) :
      Steps choice s (.readReceivedBuffers (.peek canRead)) s
        [.readReceivedBuffers (.pop packetSize)]
  | popFailed {packetSize : Nat} (hpop : s.receiveBuffer.pop packetSize = none) :
      Steps choice s (.readReceivedBuffers (.pop packetSize)) s [.requestDisconnect .claim]
  | popped {packetSize : Nat} {bytes : List Byte} {q : CircleBufferQueue}
      (hpop : s.receiveBuffer.pop packetSize = some (bytes, q)) :
      Steps choice s (.readReceivedBuffers (.pop packetSize)) { s with receiveBuffer := q }
        [.readReceivedBuffers (.checkPacket (Packet.ofRaw bytes))]
  | packetDropped {packet : Packet} (hdisc : s.disconnectRequested = true) :
      Steps choice s (.readReceivedBuffers (.checkPacket packet)) s []
  | packetKept {packet : Packet} (hdisc : s.disconnectRequested = false) :
      Steps choice s (.readReceivedBuffers (.checkPacket packet)) s
        [.readReceivedBuffers (.deliver packet)]
  | delivered {packet : Packet} :
      Steps choice s (.readReceivedBuffers (.deliver packet))
        { s with log := s.log ++ [.onPacketReceived packet] }
        [.callback .onPacketReceived, .readReceivedBuffers .checkDisconnect]
  | sendCompletedBadly {n : Nat} :
      Steps choice s (.handleSendCompletion (.start false n)) { s with sendInProgress := false }
        [.requestDisconnect .claim]
  | sendCompleted {n : Nat} :
      Steps choice s (.handleSendCompletion (.start true n)) { s with sendInProgress := false }
        [.handleSendCompletion (.consume n)]
  | consumed {n : Nat} :
      Steps choice s (.handleSendCompletion (.consume n))
        { s with sendBuffer := (s.sendBuffer.consume n).getD s.sendBuffer }
        [.handleSendCompletion (.addTxBytes n)]
  | addedTxBytes {n : Nat} :
      Steps choice s (.handleSendCompletion (.addTxBytes n))
        { s with totalTxBytes := s.totalTxBytes + UInt64.ofNat n }
        [.handleSendCompletion (.checkDisconnect n)]
  | sentDropped {n : Nat} (hdisc : s.disconnectRequested = true) :
      Steps choice s (.handleSendCompletion (.checkDisconnect n)) s []
  | sentKept {n : Nat} (hdisc : s.disconnectRequested = false) :
      Steps choice s (.handleSendCompletion (.checkDisconnect n)) s
        [.handleSendCompletion (.onSent n)]
  | sentReported {n : Nat} :
      Steps choice s (.handleSendCompletion (.onSent n)) { s with log := s.log ++ [.onSent n] }
        [.callback .onSent, .handleSendCompletion .canRead]
  | sendDrained (hempty : s.sendBuffer.size = 0) :
      Steps choice s (.handleSendCompletion .canRead) s []
  | sendPending (hsome : s.sendBuffer.size ≠ 0) :
      Steps choice s (.handleSendCompletion .canRead) s [.handleSendCompletion .checkRepost]
  | repostRefused (hdisc : s.disconnectRequested = true) :
      Steps choice s (.handleSendCompletion .checkRepost) s []
  | reposted (hdisc : s.disconnectRequested = false) :
      Steps choice s (.handleSendCompletion .checkRepost) s
        [.tryPostSendFromQueue .checkDisconnect]
  | disconnectLost (hdisc : s.disconnectRequested = true) :
      Steps choice s (.requestDisconnect .claim) s [.requestDisconnect .loadOutstanding]
  | disconnectWon {pc : RequestDisconnectPc} (hdisc : s.disconnectRequested = false)
      (hpc : pc = .releaseRecv ∧ s.socket = .null ∨ pc = .shutdown ∧ s.socket ≠ .null) :
      Steps choice s (.requestDisconnect .claim) { s with disconnectRequested := true }
        [.requestDisconnect pc]
  | recvDisconnectLost (hdisc : s.disconnectRequested = true) :
      Steps choice s (.requestReceived .disconnect) s [.requestDisconnect .loadOutstanding]
  | recvDisconnectWon {pc : RequestDisconnectPc} (hdisc : s.disconnectRequested = false)
      (hpc : pc = .releaseRecv ∧ s.socket = .null ∨ pc = .shutdown ∧ s.socket ≠ .null) :
      Steps choice s (.requestReceived .disconnect) { s with disconnectRequested := true }
        [.requestDisconnect pc]
  | dropDisconnectLost (hdisc : s.disconnectRequested = true) :
      Steps choice s (.handleRecvCompletion .disconnect) s [.requestDisconnect .loadOutstanding]
  | dropDisconnectWon {pc : RequestDisconnectPc} (hdisc : s.disconnectRequested = false)
      (hpc : pc = .releaseRecv ∧ s.socket = .null ∨ pc = .shutdown ∧ s.socket ≠ .null) :
      Steps choice s (.handleRecvCompletion .disconnect) { s with disconnectRequested := true }
        [.requestDisconnect pc]
  | shutDown :
      Steps choice s (.requestDisconnect .shutdown) { s with log := s.log ++ [.shutdown] }
        [.requestDisconnect .close]
  | closed :
      Steps choice s (.requestDisconnect .close)
        { s with socket := .closed, log := s.log ++ [.closed] } [.requestDisconnect .releaseRecv]
  | disconnectReleasedRecv :
      Steps choice s (.requestDisconnect .releaseRecv) { s with recvInProgress := false }
        [.requestDisconnect .releaseSend]
  | disconnectReleasedSend :
      Steps choice s (.requestDisconnect .releaseSend) { s with sendInProgress := false }
        [.requestDisconnect .loadOutstanding]
  | outstandingNone (hcount : s.outstandingIoCount = 0) :
      Steps choice s (.requestDisconnect .loadOutstanding) s [.tryFireOnDisconnected .claim]
  | outstandingSome (hcount : s.outstandingIoCount ≠ 0) :
      Steps choice s (.requestDisconnect .loadOutstanding) s []
  | alreadyFired (hfired : s.onDisconnectedFired = true) :
      Steps choice s (.tryFireOnDisconnected .claim) s []
  | fired (hfired : s.onDisconnectedFired = false) :
      Steps choice s (.tryFireOnDisconnected .claim) { s with onDisconnectedFired := true }
        [.tryFireOnDisconnected .clearReceive]
  | clearedReceive :
      Steps choice s (.tryFireOnDisconnected .clearReceive)
        { s with receiveBuffer := s.receiveBuffer.clear } [.tryFireOnDisconnected .clearSend]
  | clearedSend :
      Steps choice s (.tryFireOnDisconnected .clearSend)
        { s with sendBuffer := s.sendBuffer.clear } [.tryFireOnDisconnected .onDisconnected]
  | disconnected :
      Steps choice s (.tryFireOnDisconnected .onDisconnected)
        { s with log := s.log ++ [.onDisconnected] } [.callback .onDisconnected]
  | connectCompleted {success : Bool} :
      Steps choice s (.handleConnectCompletion (.start success))
        { s with connectIoPending := false } [.handleConnectCompletion (.checkDisconnect success)]
  | connectIgnored {success : Bool} (hdisc : s.disconnectRequested = true) :
      Steps choice s (.handleConnectCompletion (.checkDisconnect success)) s []
  | connectCompletedBadly (hdisc : s.disconnectRequested = false) :
      Steps choice s (.handleConnectCompletion (.checkDisconnect false)) s
        [.requestDisconnect .claim]
  | connectSucceeded (hdisc : s.disconnectRequested = false) :
      Steps choice s (.handleConnectCompletion (.checkDisconnect true)) s
        [.handleConnectCompletion .update]
  | updateFailed :
      Steps choice s (.handleConnectCompletion .update) s [.requestDisconnect .claim]
  | updated :
      Steps choice s (.handleConnectCompletion .update) s [.handleConnectCompletion .onConnected]
  | connected :
      Steps choice s (.handleConnectCompletion .onConnected)
        { s with log := s.log ++ [.onConnected] }
        [.startReceiveLoop .checkDisconnect, .callback .onConnected]
  | connectAdded :
      Steps choice s (.connectEx .addOutstanding)
        { s with outstandingIoCount := s.outstandingIoCount + 1 } [.connectEx .setPending]
  | connectMarked :
      Steps choice s (.connectEx .setPending) { s with connectIoPending := true }
        [.connectEx .connectEx]
  | connectPosted (hposts : s.posts choice = true) :
      Steps choice s (.connectEx .connectEx) { s with connects := s.connects + 1 } []
  | connectFailed (hposts : s.posts choice = false) :
      Steps choice s (.connectEx .connectEx) s [.connectEx .clearPending]
  | connectUnmarked :
      Steps choice s (.connectEx .clearPending) { s with connectIoPending := false }
        [.connectEx .undo]
  | connectUndone :
      Steps choice s (.connectEx .undo)
        { s with outstandingIoCount := s.outstandingIoCount - 1 } [.requestDisconnect .claim]
  | guardFires (hdisc : s.disconnectRequested = true) :
      Steps choice s .guardCheck s [.tryFireOnDisconnected .claim]
  | guardPasses (hdisc : s.disconnectRequested = false) :
      Steps choice s .guardCheck s []
  | returned {kind : CallbackKind} (hcall : choice.call = none) :
      Steps choice s (.callback kind) s []
  | calledSendMessage {kind : CallbackKind} {m : Message}
      (hcall : choice.call = some (.sendMessage m)) :
      Steps choice s (.callback kind) s [.sendMessage m .checkDisconnect, .callback kind]
  | calledStartReceiveLoop {kind : CallbackKind} (hcall : choice.call = some .startReceiveLoop) :
      Steps choice s (.callback kind) s [.startReceiveLoop .checkDisconnect, .callback kind]
  | calledRequestReceived {kind : CallbackKind} (hcall : choice.call = some .requestReceived) :
      Steps choice s (.callback kind) s [.requestReceived .checkDisconnect, .callback kind]
  | calledRequestDisconnect {kind : CallbackKind}
      (hcall : choice.call = some .requestDisconnect) :
      Steps choice s (.callback kind) s [.requestDisconnect .claim, .callback kind]

private theorem claim_cases (s : Shared) :
    (s.disconnectRequested = true ∧
      requestDisconnectClaim s = (s, [.requestDisconnect .loadOutstanding])) ∨
    ∃ pc, s.disconnectRequested = false ∧
      (pc = .releaseRecv ∧ s.socket = .null ∨ pc = .shutdown ∧ s.socket ≠ .null) ∧
      requestDisconnectClaim s =
        ({ s with disconnectRequested := true }, [.requestDisconnect pc]) := by
  unfold requestDisconnectClaim
  cases hdisc : s.disconnectRequested with
  | true => simp
  | false => by_cases hsocket : s.socket = .null <;> simp [hsocket]

private theorem steps_sendMessage (choice : Choice) (s : Shared) (m : Message)
    (pc : SendMessagePc) : (sendMessage m pc).Steps choice s
      (Sessions.sendMessage m s pc).1 (Sessions.sendMessage m s pc).2 := by
  cases pc with
  | checkDisconnect =>
    simp only [Sessions.sendMessage]
    split
    · rename_i hdisc
      exact .sendRefused hdisc
    · rename_i hdisc
      exact .sendAllowed (by simpa using hdisc)
  | allocateWrite =>
    simp only [Sessions.sendMessage]
    split
    · rename_i hfull
      exact .allocateFailed hfull
    · rename_i hroom
      exact .allocated hroom
  | writeSize buffers => exact .wroteSize
  | writeId buffers offsetInSpan => exact .wroteId
  | writeBody buffers offsetInSpan => exact .wroteBody

private theorem steps_tryPostSendFromQueue (choice : Choice) (s : Shared) (pc : TryPostSendPc) :
    (tryPostSendFromQueue pc).Steps choice s (Sessions.tryPostSendFromQueue choice s pc).1
      (Sessions.tryPostSendFromQueue choice s pc).2 := by
  cases pc with
  | checkDisconnect =>
    simp only [Sessions.tryPostSendFromQueue]
    split
    · rename_i hdisc
      exact .postRefused hdisc
    · rename_i hdisc
      exact .postAllowed (by simpa using hdisc)
  | claim =>
    simp only [Sessions.tryPostSendFromQueue]
    split
    · rename_i hbusy
      exact .sendBusy hbusy
    · rename_i hbusy
      exact .sendClaimed (by simpa using hbusy)
  | getReadBuffers =>
    simp only [Sessions.tryPostSendFromQueue, RingBuffer.getReadBuffers_fst]
    split
    · rename_i hempty
      exact .nothingToSend hempty
    · rename_i hempty
      exact .gotReadBuffers hempty
  | prepare bytesToSend buffers =>
    simp only [Sessions.tryPostSendFromQueue]
    split
    · rename_i hsocket
      exact .sendNoSocket hsocket
    · rename_i hsocket
      exact .sendPrepared hsocket
  | addOutstanding => exact .sendAdded
  | wsaSend =>
    simp only [Sessions.tryPostSendFromQueue]
    split
    · rename_i hposts
      exact .sendPosted hposts
    · rename_i hposts
      exact .sendFailed (by simpa using hposts)
  | undo => exact .sendUndone
  | release => exact .sendReleased

private theorem steps_startReceiveLoop (choice : Choice) (s : Shared) (pc : StartReceiveLoopPc) :
    (startReceiveLoop pc).Steps choice s (Sessions.startReceiveLoop s pc).1
      (Sessions.startReceiveLoop s pc).2 := by
  cases pc with
  | checkDisconnect =>
    simp only [Sessions.startReceiveLoop]
    split
    · rename_i hdisc
      exact .loopRefused hdisc
    · rename_i hdisc
      exact .loopAllowed (by simpa using hdisc)
  | claim =>
    simp only [Sessions.startReceiveLoop]
    split
    · rename_i hstarted
      exact .loopRunning hstarted
    · rename_i hstarted
      exact .loopStarted (by simpa using hstarted)

private theorem steps_requestReceived (choice : Choice) (s : Shared) (pc : RequestReceivedPc) :
    (requestReceived pc).Steps choice s (Sessions.requestReceived s pc).1
      (Sessions.requestReceived s pc).2 := by
  cases pc with
  | checkDisconnect =>
    simp only [Sessions.requestReceived]
    split
    · rename_i hdisc
      exact .receiveRefused hdisc
    · rename_i hdisc
      exact .receiveAllowed (by simpa using hdisc)
  | claim =>
    simp only [Sessions.requestReceived]
    split
    · rename_i hbusy
      exact .recvBusy hbusy
    · rename_i hbusy
      exact .recvClaimed (by simpa using hbusy)
  | release => exact .recvReleased
  | disconnect =>
    rcases claim_cases s with ⟨hdisc, hclaim⟩ | ⟨pc, hdisc, hpc, hclaim⟩
    · simp only [Sessions.requestReceived, hclaim]
      exact .recvDisconnectLost hdisc
    · simp only [Sessions.requestReceived, hclaim]
      exact .recvDisconnectWon hdisc hpc

private theorem steps_requestRecv (choice : Choice) (s : Shared) (zeroByte : Bool)
    (pc : RequestRecvPc) : (requestRecv zeroByte pc).Steps choice s
      (Sessions.requestRecv zeroByte choice s pc).1
      (Sessions.requestRecv zeroByte choice s pc).2 := by
  cases pc with
  | prepare =>
    by_cases hsocket : s.socket = .null
    · cases zeroByte with
      | true =>
        simp only [Sessions.requestRecv, if_pos hsocket, if_true]
        exact .zeroByteNoSocket hsocket
      | false =>
        simp only [Sessions.requestRecv, if_pos hsocket, RingBuffer.getWriteableBuffers_fst,
          Bool.false_eq_true, if_false]
        split
        · rename_i hfull
          exact .recvFull hfull
        · rename_i hroom
          exact .recvNoSocket hsocket hroom
    · cases zeroByte with
      | true =>
        simp only [Sessions.requestRecv, if_neg hsocket, if_true]
        exact .zeroBytePrepared hsocket
      | false =>
        simp only [Sessions.requestRecv, if_neg hsocket, RingBuffer.getWriteableBuffers_fst,
          Bool.false_eq_true, if_false]
        split
        · rename_i hfull
          exact .recvFull hfull
        · rename_i hroom
          exact .recvPrepared hsocket hroom
  | addOutstanding => exact .recvAdded
  | wsaRecv =>
    simp only [Sessions.requestRecv]
    split
    · rename_i hposts
      exact .recvPosted hposts
    · rename_i hposts
      exact .recvFailed (by simpa using hposts)
  | undo =>
    cases zeroByte with
    | true => exact .zeroByteUndone
    | false => exact .recvUndone

private theorem steps_handleRecvCompletion (choice : Choice) (s : Shared)
    (pc : RecvCompletionPc) : (handleRecvCompletion pc).Steps choice s
      (Sessions.handleRecvCompletion choice s pc).1
      (Sessions.handleRecvCompletion choice s pc).2 := by
  cases pc with
  | start success n =>
    cases success with
    | false => exact .recvCompletedBadly
    | true =>
      cases hzero : s.recvOverlapped.isZeroByte with
      | true =>
        by_cases hn : n = 0
        · subst hn
          simpa [Sessions.handleRecvCompletion, hzero] using .zeroByteArrived hzero
        · simpa [Sessions.handleRecvCompletion, hzero, hn] using .zeroByteCarried hzero hn
      | false =>
        by_cases hn : n = 0
        · subst hn
          simpa [Sessions.handleRecvCompletion, hzero] using .peerClosed hzero
        · simpa [Sessions.handleRecvCompletion, hzero, hn] using .dataArrived hzero hn
  | commitWrite n =>
    simp only [Sessions.handleRecvCompletion]
    split
    · rename_i hfull
      exact .commitFailed hfull
    · rename_i hroom
      exact .committed hroom
  | stamp n => exact .stamped
  | addRxBytes n => exact .addedRxBytes
  | checkDisconnect =>
    simp only [Sessions.handleRecvCompletion]
    split
    · rename_i hdisc
      exact .recvDropped hdisc
    · rename_i hdisc
      exact .recvRead (by simpa using hdisc)
  | rearm => exact .rearmed
  | drop => exact .dropped
  | release => exact .released
  | disconnect =>
    rcases claim_cases s with ⟨hdisc, hclaim⟩ | ⟨pc, hdisc, hpc, hclaim⟩
    · simp only [Sessions.handleRecvCompletion, hclaim]
      exact .dropDisconnectLost hdisc
    · simp only [Sessions.handleRecvCompletion, hclaim]
      exact .dropDisconnectWon hdisc hpc

private theorem steps_readReceivedBuffers (choice : Choice) (s : Shared) (pc : ReadReceivedPc) :
    (readReceivedBuffers pc).Steps choice s (Sessions.readReceivedBuffers s pc).1
      (Sessions.readReceivedBuffers s pc).2 := by
  cases pc with
  | checkDisconnect =>
    simp only [Sessions.readReceivedBuffers]
    split
    · rename_i hdisc
      exact .readRefused hdisc
    · rename_i hdisc
      exact .readAllowed (by simpa using hdisc)
  | canRead =>
    by_cases hshort : s.receiveBuffer.canReadSize < getHeaderSize
    · simp only [Sessions.readReceivedBuffers, if_pos hshort]
      exact .headerMissing hshort
    · simp only [Sessions.readReceivedBuffers, if_neg hshort]
      exact .headerReadable (Nat.le_of_not_lt hshort)
  | peek canRead =>
    simp only [Sessions.readReceivedBuffers]
    split
    · rename_i hpeek
      exact .frameInvalid (by simp [hpeek])
    · rename_i hpeek
      split
      · rename_i hheader
        exact .frameInvalid (by simp [hpeek, hheader])
      · rename_i hheader
        exact .frameIncomplete hpeek hheader
      · rename_i hheader
        exact .frameComplete hpeek hheader
  | pop packetSize =>
    simp only [Sessions.readReceivedBuffers]
    split
    · rename_i hpop
      exact .popFailed hpop
    · rename_i hpop
      exact .popped hpop
  | checkPacket packet =>
    simp only [Sessions.readReceivedBuffers]
    split
    · rename_i hdisc
      exact .packetDropped hdisc
    · rename_i hdisc
      exact .packetKept (by simpa using hdisc)
  | deliver packet => exact .delivered

private theorem steps_handleSendCompletion (choice : Choice) (s : Shared)
    (pc : SendCompletionPc) : (handleSendCompletion pc).Steps choice s
      (Sessions.handleSendCompletion s pc).1 (Sessions.handleSendCompletion s pc).2 := by
  cases pc with
  | start success n =>
    cases success with
    | false => exact .sendCompletedBadly
    | true => exact .sendCompleted
  | consume n => exact .consumed
  | addTxBytes n => exact .addedTxBytes
  | checkDisconnect n =>
    simp only [Sessions.handleSendCompletion]
    split
    · rename_i hdisc
      exact .sentDropped hdisc
    · rename_i hdisc
      exact .sentKept (by simpa using hdisc)
  | onSent n => exact .sentReported
  | canRead =>
    by_cases hsome : s.sendBuffer.canReadSize > 0
    · simp only [Sessions.handleSendCompletion, if_pos hsome]
      exact .sendPending (Nat.ne_of_gt hsome)
    · simp only [Sessions.handleSendCompletion, if_neg hsome]
      exact .sendDrained (Nat.eq_zero_of_not_pos hsome)
  | checkRepost =>
    simp only [Sessions.handleSendCompletion]
    split
    · rename_i hdisc
      exact .repostRefused hdisc
    · rename_i hdisc
      exact .reposted (by simpa using hdisc)

private theorem steps_requestDisconnect (choice : Choice) (s : Shared)
    (pc : RequestDisconnectPc) : (requestDisconnect pc).Steps choice s
      (Sessions.requestDisconnect s pc).1 (Sessions.requestDisconnect s pc).2 := by
  cases pc with
  | claim =>
    rcases claim_cases s with ⟨hdisc, hclaim⟩ | ⟨pc, hdisc, hpc, hclaim⟩
    · simp only [Sessions.requestDisconnect, hclaim]
      exact .disconnectLost hdisc
    · simp only [Sessions.requestDisconnect, hclaim]
      exact .disconnectWon hdisc hpc
  | shutdown => exact .shutDown
  | close => exact .closed
  | releaseRecv => exact .disconnectReleasedRecv
  | releaseSend => exact .disconnectReleasedSend
  | loadOutstanding =>
    simp only [Sessions.requestDisconnect]
    split
    · rename_i hcount
      exact .outstandingNone hcount
    · rename_i hcount
      exact .outstandingSome hcount

private theorem steps_tryFireOnDisconnected (choice : Choice) (s : Shared) (pc : TryFirePc) :
    (tryFireOnDisconnected pc).Steps choice s (Sessions.tryFireOnDisconnected s pc).1
      (Sessions.tryFireOnDisconnected s pc).2 := by
  cases pc with
  | claim =>
    simp only [Sessions.tryFireOnDisconnected]
    split
    · rename_i hfired
      exact .alreadyFired hfired
    · rename_i hfired
      exact .fired (by simpa using hfired)
  | clearReceive => exact .clearedReceive
  | clearSend => exact .clearedSend
  | onDisconnected => exact .disconnected

private theorem steps_handleConnectCompletion (choice : Choice) (s : Shared)
    (pc : ConnectCompletionPc) : (handleConnectCompletion pc).Steps choice s
      (Sessions.handleConnectCompletion choice s pc).1
      (Sessions.handleConnectCompletion choice s pc).2 := by
  cases pc with
  | start success => exact .connectCompleted
  | checkDisconnect success =>
    simp only [Sessions.handleConnectCompletion]
    split
    · rename_i hdisc
      exact .connectIgnored hdisc
    · rename_i hdisc
      cases success with
      | false => exact .connectCompletedBadly (by simpa using hdisc)
      | true => exact .connectSucceeded (by simpa using hdisc)
  | update =>
    simp only [Sessions.handleConnectCompletion]
    split
    · exact .updated
    · exact .updateFailed
  | onConnected => exact .connected

private theorem steps_connectEx (choice : Choice) (s : Shared) (pc : ConnectExPc) :
    (connectEx pc).Steps choice s (Sessions.connectEx choice s pc).1
      (Sessions.connectEx choice s pc).2 := by
  cases pc with
  | addOutstanding => exact .connectAdded
  | setPending => exact .connectMarked
  | connectEx =>
    simp only [Sessions.connectEx]
    split
    · rename_i hposts
      exact .connectPosted hposts
    · rename_i hposts
      exact .connectFailed (by simpa using hposts)
  | clearPending => exact .connectUnmarked
  | undo => exact .connectUndone

theorem steps_exec (choice : Choice) (s : Shared) (f : Frame) :
    f.Steps choice s (f.exec choice s).1 (f.exec choice s).2 := by
  cases f with
  | sendMessage m pc => exact steps_sendMessage choice s m pc
  | tryPostSendFromQueue pc => exact steps_tryPostSendFromQueue choice s pc
  | startReceiveLoop pc => exact steps_startReceiveLoop choice s pc
  | requestReceived pc => exact steps_requestReceived choice s pc
  | requestRecv zeroByte pc => exact steps_requestRecv choice s zeroByte pc
  | handleRecvCompletion pc => exact steps_handleRecvCompletion choice s pc
  | readReceivedBuffers pc => exact steps_readReceivedBuffers choice s pc
  | handleSendCompletion pc => exact steps_handleSendCompletion choice s pc
  | requestDisconnect pc => exact steps_requestDisconnect choice s pc
  | tryFireOnDisconnected pc => exact steps_tryFireOnDisconnected choice s pc
  | handleConnectCompletion pc => exact steps_handleConnectCompletion choice s pc
  | connectEx pc => exact steps_connectEx choice s pc
  | guardCheck =>
    simp only [exec]
    split
    · rename_i hdisc
      exact .guardFires hdisc
    · rename_i hdisc
      exact .guardPasses (by simpa using hdisc)
  | callback kind =>
    simp only [exec]
    split
    · rename_i hcall
      exact .returned hcall
    · rename_i call hcall
      cases call with
      | sendMessage m => exact .calledSendMessage hcall
      | startReceiveLoop => exact .calledStartReceiveLoop hcall
      | requestReceived => exact .calledRequestReceived hcall
      | requestDisconnect => exact .calledRequestDisconnect hcall

end Frame

end FastPort.Sessions
