import FastPort.Foundation.WaitSet
import FastPort.Foundation.Stack

/-! `LatencyBenchmarkRunner::RunMultiSessionBenchmark` from the point where its sessions are
connected: `sendNext`, the packet handlers of the sessions, and the two phases of the main
thread. The server answers every request once, and those of one session in order; the
handlers of one session do not overlap; nothing is lost and nobody stops the run. -/
namespace FastPort.Benchmark.MultiSession

open FastPort.Foundation.Pool FastPort.Foundation.Stack FastPort.Foundation.Tally
open FastPort.Foundation.Transition FastPort.Foundation.WaitSet

abbrev Payload := List UInt8

/-- What the run is given, and its bounds as the runner rounds them. -/
structure Setup where
  sessionCount : Nat
  warmupTarget : Nat
  totalTarget : Nat
  payloads : List Payload
  session_pos : 0 < sessionCount
  payloads_ne : payloads ≠ []

def Setup.ofConfig (sessionCount warmupIterations iterations : Nat) (payloads : List Payload)
    (payloads_ne : payloads ≠ []) : Setup where
  sessionCount := max 1 sessionCount
  warmupTarget := warmupIterations * max 1 sessionCount
  totalTarget := max 1 iterations
  payloads := payloads
  session_pos := by omega
  payloads_ne := payloads_ne

def Setup.limit (setup : Setup) (measured : Bool) : Nat :=
  if measured then setup.totalTarget else setup.warmupTarget

/-- `BenchmarkRequest`, on the connection it is sent on. No code reads `measured`: it is the
phase in which the request was sent. -/
structure Request where
  session : Nat
  measured : Bool
  requestId : Nat
  clientTimestampNs : UInt64
  sequence : UInt32
  payload : Payload
deriving DecidableEq

structure SessionContext where
  sequence : UInt32
  sendTimeNs : UInt64
  payloadIndex : Nat
deriving DecidableEq

/-- What `AddSample` is given. -/
structure Sample where
  latencyNs : UInt64
  payloadBytes : Nat
deriving DecidableEq

/-- The counters `nextWarmup` and `completedWarmup` are those of `false`, `nextMeasured` and
`completedMeasured` those of `true`. `requests` are on their way or with the server,
`responses` stand for the requests they answer, and `handling` are the sessions whose
handler runs. `answered` is history: when the response of each sample was received, and the
request that it answers. -/
structure Shared where
  contexts : Nat → SessionContext
  requests : List Request
  responses : List Request
  handling : List Nat
  next : Bool → Nat
  completed : Bool → Nat
  runningMeasured : Bool
  doneCv : Condition
  samples : List Sample
  started : Bool
  finished : Bool
  answered : List (UInt64 × Request)

def Shared.initial : Shared where
  contexts _ := ⟨0, 0, 0⟩
  requests := []
  responses := []
  handling := []
  next _ := 0
  completed _ := 0
  runningMeasured := false
  doneCv := .initial
  samples := []
  started := false
  finished := false
  answered := []

inductive SendNextPc where
  | claim
  | prepare (ticket : Nat)
  | storePayloadIndex (request : Request) (payloadIndex : Nat)
  | storeSendTime (request : Request)
  | sendMessage (request : Request)
deriving DecidableEq

/-- Who called `sendNext`: the main thread, or a handler with its count of what is done. -/
inductive Caller where
  | main
  | handler (done : Nat)
deriving DecidableEq, Repr

inductive HandlerPc where
  | start (response : Request)
  | completeWarmup (response : Request)
  | loadSendTime (response : Request) (recvTime : UInt64)
  | loadPayloadIndex (response : Request) (recvTime sendTime : UInt64)
  | addSample (response : Request) (recvTime sendTime : UInt64) (payloadIndex : Nat)
  | completeMeasured (response : Request)
  | notify (measured : Bool)
  | returns
deriving DecidableEq

inductive MainPc where
  | send (measured : Bool) (session : Nat)
  | await (measured : Bool)
  | waiting (measured : Bool) (ticket : Nat)
  | startMeasured
deriving DecidableEq, Repr

inductive Frame where
  | sendNext (session : Nat) (measured : Bool) (caller : Caller) (pc : SendNextPc)
  | handler (session : Nat) (pc : HandlerPc)
  | main (pc : MainPc)
deriving DecidableEq

structure Choice where
  nowNs : UInt64
  spurious : Bool
deriving DecidableEq

def Shared.setContext (s : Shared) (session : Nat) (context : SessionContext) : Shared :=
  { s with contexts := Function.update s.contexts session context }

@[simp] theorem Shared.setContext_requests (s : Shared) (session : Nat)
    (context : SessionContext) : (s.setContext session context).requests = s.requests := rfl

@[simp] theorem Shared.setContext_responses (s : Shared) (session : Nat)
    (context : SessionContext) : (s.setContext session context).responses = s.responses := rfl

@[simp] theorem Shared.setContext_next (s : Shared) (session : Nat) (context : SessionContext) :
    (s.setContext session context).next = s.next := rfl

@[simp] theorem Shared.setContext_completed (s : Shared) (session : Nat)
    (context : SessionContext) : (s.setContext session context).completed = s.completed := rfl

def bump (counter : Bool → Nat) (measured : Bool) : Bool → Nat :=
  Function.update counter measured (counter measured + 1)

def Caller.returns (setup : Setup) (session : Nat) (measured sent : Bool) : Caller → Frame
  | main => .main (.send measured (session + 1))
  | handler done =>
      .handler session (if !sent ∧ setup.limit measured ≤ done then .notify measured else .returns)

def sendNext (setup : Setup) (choice : Choice) (s : Shared) (session : Nat) (measured : Bool)
    (caller : Caller) : SendNextPc → Shared × Frame
  | .claim =>
      let ticket := s.next measured
      ({ s with next := bump s.next measured },
        if setup.limit measured ≤ ticket then caller.returns setup session measured false
        else .sendNext session measured caller (.prepare ticket))
  | .prepare ticket =>
      let payloadIndex := (ticket + session * 131) % setup.payloads.length
      let context := s.contexts session
      (s.setContext session { context with sequence := context.sequence + 1 },
        .sendNext session measured caller (.storePayloadIndex
          ⟨session, measured, ticket, choice.nowNs, context.sequence,
            setup.payloads.getD payloadIndex []⟩ payloadIndex))
  | .storePayloadIndex request payloadIndex =>
      (s.setContext session { s.contexts session with payloadIndex := payloadIndex },
        .sendNext session measured caller (.storeSendTime request))
  | .storeSendTime request =>
      (s.setContext session { s.contexts session with sendTimeNs := request.clientTimestampNs },
        .sendNext session measured caller (.sendMessage request))
  | .sendMessage request =>
      ({ s with requests := s.requests ++ [request] }, caller.returns setup session measured true)

/-- The packet handler of a session. -/
def handler (setup : Setup) (choice : Choice) (s : Shared) (session : Nat) :
    HandlerPc → Shared × List Frame
  | .start response =>
      (s, [.handler session (if s.runningMeasured then .loadSendTime response choice.nowNs
        else .completeWarmup response)])
  | .completeWarmup _ =>
      ({ s with completed := bump s.completed false },
        [.sendNext session false (.handler (s.completed false + 1)) .claim])
  | .loadSendTime response recvTime =>
      (s, [.handler session
        (.loadPayloadIndex response recvTime (s.contexts session).sendTimeNs)])
  | .loadPayloadIndex response recvTime sendTime =>
      (s, [.handler session
        (.addSample response recvTime sendTime (s.contexts session).payloadIndex)])
  | .addSample response recvTime sendTime payloadIndex =>
      ({ s with
        samples := s.samples ++
          [⟨recvTime - sendTime, (setup.payloads.getD payloadIndex []).length⟩]
        answered := s.answered ++ [(recvTime, response)] },
        [.handler session (.completeMeasured response)])
  | .completeMeasured _ =>
      ({ s with completed := bump s.completed true },
        [.sendNext session true (.handler (s.completed true + 1)) .claim])
  | .notify _ => ({ s with doneCv := s.doneCv.notifyAll }, [.handler session .returns])
  | .returns => ({ s with handling := s.handling.erase session }, [])

/-- The test of a wait and the wait itself are one step, under `doneMutex`. -/
def main (setup : Setup) (choice : Choice) (s : Shared) : MainPc → Shared × List Frame
  | .send measured session =>
      (s, [if session < setup.sessionCount then .sendNext session measured .main .claim
        else .main (.await measured)])
  | .await measured =>
      if setup.limit measured ≤ s.completed measured then
        if measured then ({ s with finished := true }, []) else (s, [.main .startMeasured])
      else ({ s with doneCv := s.doneCv.wait }, [.main (.waiting measured s.doneCv.nextTicket)])
  | .waiting measured ticket =>
      if ticket ∉ s.doneCv.waiters then (s, [.main (.await measured)])
      else if choice.spurious then
        ({ s with doneCv := s.doneCv.leave ticket }, [.main (.await measured)])
      else (s, [.main (.waiting measured ticket)])
  | .startMeasured => ({ s with runningMeasured := true }, [.main (.send true 0)])

def Frame.exec (setup : Setup) (choice : Choice) (s : Shared) : Frame → Shared × List Frame
  | sendNext session measured caller pc =>
      let next := MultiSession.sendNext setup choice s session measured caller pc
      (next.1, [next.2])
  | handler session pc => MultiSession.handler setup choice s session pc
  | main pc => MultiSession.main setup choice s pc

/-- The main thread gets to the phases, the server answers a request, and a response is
handed to the handler of its session. -/
inductive Event where
  | start
  | answer (index : Nat)
  | deliver (index : Nat)
deriving DecidableEq, Repr

def isFirst (queue : List Request) (index : Nat) (request : Request) : Bool :=
  (queue.take index).all fun earlier => earlier.session != request.session

def Shared.arrive (setup : Setup) (s : Shared) : Event → Option (Shared × List Frame)
  | .start =>
      if s.started then none
      else some ({ s with started := true },
        [.main (if 0 < setup.warmupTarget then .send false 0 else .startMeasured)])
  | .answer index =>
      (s.requests[index]?).bind fun request =>
        if isFirst s.requests index request then
          some ({ s with
            requests := s.requests.eraseIdx index
            responses := s.responses ++ [request] }, [])
        else none
  | .deliver index =>
      (s.responses[index]?).bind fun response =>
        if isFirst s.responses index response ∧ response.session ∉ s.handling then
          some ({ s with
            responses := s.responses.eraseIdx index
            handling := s.handling ++ [response.session] },
            [.handler response.session (.start response)])
        else none

def program (setup : Setup) : Program Shared Frame Choice Event where
  start s := s = Shared.initial
  exec choice s f := f.exec setup choice s
  arrive event s := s.arrive setup event

abbrev World := Stacks Shared Frame

abbrev Label := Move Choice Event

def system (setup : Setup) : System World Label := (program setup).system

variable {setup : Setup}

inductive Frame.Steps (setup : Setup) (s : Shared) : Frame → Shared → List Frame → Prop where
  | claims (session : Nat) (measured : Bool) (caller : Caller)
      (hlt : s.next measured < setup.limit measured) :
      Steps setup s (.sendNext session measured caller .claim)
        { s with next := bump s.next measured }
        [.sendNext session measured caller (.prepare (s.next measured))]
  | exhaustedMain (session : Nat) (measured : Bool)
      (hle : setup.limit measured ≤ s.next measured) :
      Steps setup s (.sendNext session measured .main .claim)
        { s with next := bump s.next measured } [.main (.send measured (session + 1))]
  | exhausted {done : Nat} (session : Nat) (measured : Bool)
      (hle : setup.limit measured ≤ s.next measured) (hmore : done < setup.limit measured) :
      Steps setup s (.sendNext session measured (.handler done) .claim)
        { s with next := bump s.next measured } [.handler session .returns]
  | exhaustedLast {done : Nat} (session : Nat) (measured : Bool)
      (hle : setup.limit measured ≤ s.next measured) (hdone : setup.limit measured ≤ done) :
      Steps setup s (.sendNext session measured (.handler done) .claim)
        { s with next := bump s.next measured } [.handler session (.notify measured)]
  | prepares {session : Nat} {measured : Bool} {request : Request} {payloadIndex : Nat}
      (caller : Caller) (ticket : Nat) (sequence : UInt32) (hsession : request.session = session)
      (hmeasured : request.measured = measured)
      (hpayload : setup.payloads[payloadIndex]? = some request.payload) :
      Steps setup s (.sendNext session measured caller (.prepare ticket))
        (s.setContext session { s.contexts session with sequence := sequence })
        [.sendNext session measured caller (.storePayloadIndex request payloadIndex)]
  | storesPayloadIndex (session : Nat) (measured : Bool) (caller : Caller) (request : Request)
      (payloadIndex : Nat) :
      Steps setup s (.sendNext session measured caller (.storePayloadIndex request payloadIndex))
        (s.setContext session { s.contexts session with payloadIndex := payloadIndex })
        [.sendNext session measured caller (.storeSendTime request)]
  | storesSendTime (session : Nat) (measured : Bool) (caller : Caller) (request : Request) :
      Steps setup s (.sendNext session measured caller (.storeSendTime request))
        (s.setContext session
          { s.contexts session with sendTimeNs := request.clientTimestampNs })
        [.sendNext session measured caller (.sendMessage request)]
  | sendsMain (session : Nat) (measured : Bool) (request : Request) :
      Steps setup s (.sendNext session measured .main (.sendMessage request))
        { s with requests := s.requests ++ [request] } [.main (.send measured (session + 1))]
  | sends (session : Nat) (measured : Bool) (done : Nat) (request : Request) :
      Steps setup s (.sendNext session measured (.handler done) (.sendMessage request))
        { s with requests := s.requests ++ [request] } [.handler session .returns]
  | startsWarmup (session : Nat) (response : Request) (hrunning : s.runningMeasured = false) :
      Steps setup s (.handler session (.start response)) s
        [.handler session (.completeWarmup response)]
  | startsMeasured (session : Nat) (response : Request) (recvTime : UInt64)
      (hrunning : s.runningMeasured = true) :
      Steps setup s (.handler session (.start response)) s
        [.handler session (.loadSendTime response recvTime)]
  | completesWarmup (session : Nat) (response : Request) :
      Steps setup s (.handler session (.completeWarmup response))
        { s with completed := bump s.completed false }
        [.sendNext session false (.handler (s.completed false + 1)) .claim]
  | loadsSendTime (session : Nat) (response : Request) (recvTime : UInt64) :
      Steps setup s (.handler session (.loadSendTime response recvTime)) s
        [.handler session (.loadPayloadIndex response recvTime (s.contexts session).sendTimeNs)]
  | loadsPayloadIndex (session : Nat) (response : Request) (recvTime sendTime : UInt64) :
      Steps setup s (.handler session (.loadPayloadIndex response recvTime sendTime)) s
        [.handler session
          (.addSample response recvTime sendTime (s.contexts session).payloadIndex)]
  | addsSample (session : Nat) (response : Request) (recvTime sendTime : UInt64)
      (payloadIndex : Nat) :
      Steps setup s (.handler session (.addSample response recvTime sendTime payloadIndex))
        { s with
          samples := s.samples ++
            [⟨recvTime - sendTime, (setup.payloads.getD payloadIndex []).length⟩]
          answered := s.answered ++ [(recvTime, response)] }
        [.handler session (.completeMeasured response)]
  | completesMeasured (session : Nat) (response : Request) :
      Steps setup s (.handler session (.completeMeasured response))
        { s with completed := bump s.completed true }
        [.sendNext session true (.handler (s.completed true + 1)) .claim]
  | notifies (session : Nat) (measured : Bool) :
      Steps setup s (.handler session (.notify measured))
        { s with doneCv := s.doneCv.notifyAll } [.handler session .returns]
  | returns (session : Nat) : Steps setup s (.handler session .returns)
      { s with handling := s.handling.erase session } []
  | nextSession {session : Nat} (measured : Bool) (hlt : session < setup.sessionCount) :
      Steps setup s (.main (.send measured session)) s [.sendNext session measured .main .claim]
  | lastSession {session : Nat} (measured : Bool) (hle : setup.sessionCount ≤ session) :
      Steps setup s (.main (.send measured session)) s [.main (.await measured)]
  | warmedUp (hdone : setup.limit false ≤ s.completed false) :
      Steps setup s (.main (.await false)) s [.main .startMeasured]
  | finishes (hdone : setup.limit true ≤ s.completed true) :
      Steps setup s (.main (.await true)) { s with finished := true } []
  | waits (measured : Bool) (hlt : s.completed measured < setup.limit measured) :
      Steps setup s (.main (.await measured)) { s with doneCv := s.doneCv.wait }
        [.main (.waiting measured s.doneCv.nextTicket)]
  | wakes {ticket : Nat} (measured : Bool) (hgone : ticket ∉ s.doneCv.waiters) :
      Steps setup s (.main (.waiting measured ticket)) s [.main (.await measured)]
  | wakesSpuriously {ticket : Nat} (measured : Bool) (hwaits : ticket ∈ s.doneCv.waiters) :
      Steps setup s (.main (.waiting measured ticket))
        { s with doneCv := s.doneCv.leave ticket } [.main (.await measured)]
  | blocked {ticket : Nat} (measured : Bool) (hwaits : ticket ∈ s.doneCv.waiters) :
      Steps setup s (.main (.waiting measured ticket)) s [.main (.waiting measured ticket)]
  | switches : Steps setup s (.main .startMeasured) { s with runningMeasured := true }
      [.main (.send true 0)]

theorem Setup.payload_index (setup : Setup) (n : Nat) :
    setup.payloads[n % setup.payloads.length]? =
      some (setup.payloads.getD (n % setup.payloads.length) []) := by
  have hlt := Nat.mod_lt n (List.length_pos_iff.mpr setup.payloads_ne)
  rw [List.getD_eq_getElem?_getD, List.getElem?_eq_getElem hlt, Option.getD_some]

theorem Frame.steps_exec (f : Frame) (setup : Setup) (choice : Choice) (s : Shared) :
    f.Steps setup s (f.exec setup choice s).1 (f.exec setup choice s).2 := by
  cases f with
  | sendNext session measured caller pc =>
    cases pc with
    | claim =>
      simp only [exec, MultiSession.sendNext]
      split
      · rename_i hle
        cases caller with
        | main => exact .exhaustedMain session measured hle
        | handler done =>
          simp only [Caller.returns, Bool.not_false, true_and]
          split
          · rename_i hdone
            exact .exhaustedLast session measured hle hdone
          · rename_i hmore
            exact .exhausted session measured hle (Nat.lt_of_not_le hmore)
      · rename_i hlt
        exact .claims session measured caller (Nat.lt_of_not_le hlt)
    | prepare ticket => exact .prepares caller ticket _ rfl rfl (setup.payload_index _)
    | storePayloadIndex request payloadIndex =>
      exact .storesPayloadIndex session measured caller request payloadIndex
    | storeSendTime request => exact .storesSendTime session measured caller request
    | sendMessage request =>
      cases caller with
      | main => exact .sendsMain session measured request
      | handler done =>
        simp only [exec, MultiSession.sendNext, Caller.returns, Bool.not_true,
          Bool.false_eq_true, false_and, if_false]
        exact .sends session measured done request
  | handler session pc =>
    cases pc with
    | start response =>
      simp only [exec, MultiSession.handler]
      split
      · rename_i hrunning
        exact .startsMeasured session response choice.nowNs hrunning
      · rename_i hrunning
        exact .startsWarmup session response (Bool.not_eq_true _ ▸ hrunning)
    | completeWarmup response => exact .completesWarmup session response
    | loadSendTime response recvTime => exact .loadsSendTime session response recvTime
    | loadPayloadIndex response recvTime sendTime =>
      exact .loadsPayloadIndex session response recvTime sendTime
    | addSample response recvTime sendTime payloadIndex =>
      exact .addsSample session response recvTime sendTime payloadIndex
    | completeMeasured response => exact .completesMeasured session response
    | notify measured => exact .notifies session measured
    | returns => exact .returns session
  | main pc =>
    cases pc with
    | send measured session =>
      simp only [exec, MultiSession.main]
      split
      · rename_i hlt
        exact .nextSession measured hlt
      · rename_i hle
        exact .lastSession measured (Nat.le_of_not_lt hle)
    | await measured =>
      simp only [exec, MultiSession.main]
      split
      · rename_i hdone
        cases measured with
        | false => exact .warmedUp hdone
        | true => exact .finishes hdone
      · rename_i hlt
        exact .waits measured (Nat.lt_of_not_le hlt)
    | waiting measured ticket =>
      simp only [exec, MultiSession.main]
      split
      · rename_i hgone
        exact .wakes measured hgone
      · rename_i hwaits
        split
        · exact .wakesSpuriously measured (Decidable.not_not.mp hwaits)
        · exact .blocked measured (Decidable.not_not.mp hwaits)
    | startMeasured => exact .switches

inductive Shared.Arrived (setup : Setup) (s : Shared) : Event → Shared → List Frame → Prop where
  | start {pc : MainPc} (hstarted : s.started = false)
      (hpc : (0 < setup.limit false ∧ pc = .send false 0) ∨
        (setup.limit false = 0 ∧ pc = .startMeasured)) :
      Arrived setup s .start { s with started := true } [.main pc]
  | answer {index : Nat} {request : Request} (hrequest : s.requests[index]? = some request) :
      Arrived setup s (.answer index)
        { s with requests := s.requests.eraseIdx index, responses := s.responses ++ [request] } []
  | deliver {index : Nat} {response : Request} (hresponse : s.responses[index]? = some response) :
      Arrived setup s (.deliver index)
        { s with
          responses := s.responses.eraseIdx index
          handling := s.handling ++ [response.session] }
        [.handler response.session (.start response)]

theorem Shared.arrived {s s' : Shared} {event : Event} {fs : List Frame}
    (h : s.arrive setup event = some (s', fs)) : s.Arrived setup event s' fs := by
  cases event with
  | start =>
    obtain ⟨hstarted, heq⟩ := Option.ite_none_left_eq_some.mp h
    cases heq
    apply Arrived.start (Bool.not_eq_true _ ▸ hstarted)
    by_cases hwarmup : 0 < setup.warmupTarget
    · exact .inl ⟨hwarmup, if_pos hwarmup⟩
    · exact .inr ⟨Nat.eq_zero_of_not_pos hwarmup, if_neg hwarmup⟩
  | answer index =>
    obtain ⟨request, hrequest, hfirst⟩ := Option.bind_eq_some_iff.mp h
    obtain ⟨-, heq⟩ := Option.ite_none_right_eq_some.mp hfirst
    cases heq
    exact .answer hrequest
  | deliver index =>
    obtain ⟨response, hresponse, hfirst⟩ := Option.bind_eq_some_iff.mp h
    obtain ⟨-, heq⟩ := Option.ite_none_right_eq_some.mp hfirst
    cases heq
    exact .deliver hresponse

end FastPort.Benchmark.MultiSession
