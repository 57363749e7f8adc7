import FastPort.Services.PeriodicLifecycle

/-! `SessionIdleChecker`: `OnTick` asks the sessions that have been idle too long to
disconnect, and counts. Of a session the checker sees when it last received, and of
`RequestDisconnect` that it returns or throws; what the call does, it does before. -/
namespace FastPort.Services.SessionIdleChecker

open FastPort.Foundation.Pool FastPort.Foundation.Stack FastPort.Foundation.Tally
open FastPort.Foundation.Transition FastPort.Services.PeriodicService

variable {Session : Type}

structure IdleCheckerConfig where
  thresholdMs : Int
  enabled : Bool

/-- The counter, the sessions whose `m_DisconnectRequested` is set, and of these the ones
where a call of the checker set it. The rest is history: how many calls that found it set
returned, and how many that set it threw. -/
structure Checker (Session : Type) where
  disconnectCount : Nat
  disconnectRequested : List Session
  initiated : List Session
  repeated : Nat
  thrown : Nat
deriving DecidableEq, Repr

def Checker.initial : Checker Session := ⟨0, [], [], 0, 0⟩

/-- `OnTick` after the late check. -/
inductive TickPc (Session : Type) where
  | snapshot
  | nowMs (entries : List (Option Session))
  | sessions (nowMs : Int) (entries : List (Option Session))
  | requestDisconnect (pSession : Session)
  | fetchAdd
deriving DecidableEq, Repr

/-- The snapshot of the provider, `none` if it throws; the clock; when the session last
received; whether the call of the session throws. -/
structure Input (Session : Type) where
  snapshot : Option (List (Option Session))
  nowMs : Int
  lastRecvTimeMs : Int
  throws : Bool

def sessions (config : IdleCheckerConfig) (nowMs last : Int) :
    List (Option Session) → List (TickPc Session)
  | [] => []
  | none :: rest => [.sessions nowMs rest]
  | some pSession :: rest =>
      if last = 0 then [.sessions nowMs rest]
      else if nowMs - last < config.thresholdMs then [.sessions nowMs rest]
      else [.requestDisconnect pSession, .sessions nowMs rest]

/-- `RequestDisconnect(IdleTimeout)` in the `try` block. -/
def requestDisconnect [DecidableEq Session] (throws : Bool) (c : Checker Session)
    (pSession : Session) : Checker Session × List (TickPc Session) :=
  if pSession ∈ c.disconnectRequested then
    if throws then (c, []) else ({ c with repeated := c.repeated + 1 }, [.fetchAdd])
  else
    let c' := { c with
      disconnectRequested := pSession :: c.disconnectRequested
      initiated := pSession :: c.initiated }
    if throws then ({ c' with thrown := c.thrown + 1 }, []) else (c', [.fetchAdd])

def TickPc.exec [DecidableEq Session] (config : IdleCheckerConfig) (input : Input Session)
    (c : Checker Session) : TickPc Session → Checker Session × List (TickPc Session)
  | snapshot => (c, input.snapshot.elim [] fun entries => [.nowMs entries])
  | nowMs entries => (c, [.sessions input.nowMs entries])
  | sessions now entries =>
      (c, SessionIdleChecker.sessions config now input.lastRecvTimeMs entries)
  | requestDisconnect pSession =>
      SessionIdleChecker.requestDisconnect input.throws c pSession
  | fetchAdd => ({ c with disconnectCount := c.disconnectCount + 1 }, [])

def Checker.otherReason (pSession : Session) (c : Checker Session) : Checker Session :=
  { c with disconnectRequested := pSession :: c.disconnectRequested }

def service [DecidableEq Session] (config : IdleCheckerConfig) :
    Service (Checker Session) (Input Session) Session (TickPc Session) where
  enabled := config.enabled
  initial := .initial
  beforeSchedule := []
  tick := [.snapshot]
  exec := TickPc.exec config
  arrive := Checker.otherReason

abbrev World (Session : Type) := PeriodicService.World (Checker Session) (TickPc Session)

abbrev Label (Session : Type) := PeriodicService.Label (Input Session) Session

def system [DecidableEq Session] (config : IdleCheckerConfig) :
    System (World Session) (Label Session) :=
  PeriodicService.system (service config)

variable {config : IdleCheckerConfig} {ok : World Session → Label Session → Prop}
variable {w : World Session}

def TickPc.counts : TickPc Session → Nat
  | fetchAdd => 1
  | _ => 0

theorem tally_sessions (nowMs last : Int) (entries : List (Option Session)) :
    tally TickPc.counts (sessions config nowMs last entries) = 0 := by
  cases entries with
  | nil => rfl
  | cons pSession rest =>
    cases pSession with
    | none => rfl
    | some pSession =>
      simp only [sessions]
      split
      · rfl
      · split <;> rfl

structure Distinct (c : Checker Session) : Prop where
  nodup : c.initiated.Nodup
  requested : ∀ pSession ∈ c.initiated, pSession ∈ c.disconnectRequested

theorem Distinct.initiate {c : Checker Session} {pSession : Session} (h : Distinct c)
    (hnew : pSession ∉ c.disconnectRequested) (thrown : Nat) :
    Distinct { c with
      disconnectRequested := pSession :: c.disconnectRequested
      initiated := pSession :: c.initiated
      thrown := thrown } := by
  constructor
  · exact List.nodup_cons.mpr ⟨fun hmem => hnew (h.requested pSession hmem), h.nodup⟩
  · intro p hp
    rcases List.mem_cons.mp hp with rfl | hp
    · exact List.mem_cons_self
    · exact List.mem_cons_of_mem _ (h.requested p hp)

variable [DecidableEq Session]

theorem ledger (hw : (system config).Reach ok w) :
    w.shared.own.disconnectCount + w.shared.own.thrown +
        w.weigh (Frame.own TickPc.counts) =
      w.shared.own.initiated.length + w.shared.own.repeated := by
  apply own_balance (fun c => c.disconnectCount + c.thrown)
    (fun c => c.initiated.length + c.repeated) TickPc.counts rfl rfl rfl ?_ ?_ hw
  · intro input c b
    cases b with
    | snapshot =>
      cases hsnapshot : input.snapshot <;>
        simp [service, TickPc.exec, hsnapshot, TickPc.counts, Nat.add_comm]
    | nowMs entries => exact Nat.add_comm _ _
    | sessions nowMs entries =>
      simp only [service, TickPc.exec, tally_sessions, TickPc.counts]
      omega
    | requestDisconnect pSession =>
      simp only [service, TickPc.exec, requestDisconnect, TickPc.counts]
      split <;> split <;> simp [TickPc.counts] <;> omega
    | fetchAdd =>
      simp only [service, TickPc.exec, TickPc.counts, tally_nil]
      omega
  · intro pSession c
    exact Nat.add_comm _ _

theorem distinct (hw : (system config).Reach ok w) : Distinct w.shared.own := by
  apply own_invariant (I := Distinct) ⟨List.nodup_nil, by rintro _ ⟨⟩⟩ ?_ ?_ hw
  · intro w tid choice b rest _ _ _ ih
    cases b with
    | requestDisconnect pSession =>
      simp only [service, TickPc.exec, requestDisconnect]
      split
      · split
        · exact ih
        · exact ⟨ih.nodup, ih.requested⟩
      · rename_i hnew
        split
        · exact ih.initiate hnew _
        · exact ih.initiate hnew _
    | fetchAdd => exact ⟨ih.nodup, ih.requested⟩
    | _ => exact ih
  · intro pSession c ih
    exact ⟨ih.nodup, fun p hp => List.mem_cons_of_mem _ (ih.requested p hp)⟩

/-- The session that a step of `OnTick` asks to disconnect. -/
def asked : Frame (TickPc Session) → Option Session
  | .body (.requestDisconnect pSession) => some pSession
  | _ => none

/-- A call of `OnTick` returns if it is the first for its session, and otherwise throws. -/
def FirstReturns (w : World Session) : Label Session → Prop
  | .run tid choice =>
      ((w.runs (.run tid choice : Label Session)).bind asked).all (fun pSession =>
        choice.input.throws == decide (pSession ∈ w.shared.own.disconnectRequested)) = true
  | .spawn _ => True

instance (w : World Session) (l : Label Session) : Decidable (FirstReturns w l) :=
  match l with
  | .run tid choice => inferInstanceAs (Decidable
      (((w.runs (.run tid choice : Label Session)).bind asked).all (fun pSession =>
        choice.input.throws == decide (pSession ∈ w.shared.own.disconnectRequested)) = true))
  | .spawn _ => .isTrue trivial

/-- With the calls that are about to be counted, the counter is the number of sessions whose
disconnect the checker initiated. -/
structure CountsSessions (w : World Session) : Prop where
  distinct : w.shared.own.initiated.Nodup
  counted : w.shared.own.disconnectCount + w.weigh (Frame.own TickPc.counts) =
    w.shared.own.initiated.length

theorem countsSessions_iff (hw : (system config).Reach ok w) :
    CountsSessions w ↔ w.shared.own.thrown = w.shared.own.repeated := by
  have hledger := ledger hw
  constructor
  · intro h
    have hcounted := h.counted
    omega
  · intro heq
    exact ⟨(distinct hw).nodup, by omega⟩

theorem idle_disconnects_counted (hw : (system config).Reach FirstReturns w) :
    CountsSessions w := by
  have hnone : w.shared.own.repeated = 0 ∧ w.shared.own.thrown = 0 := by
    apply own_invariant (I := fun c : Checker Session => c.repeated = 0 ∧ c.thrown = 0)
      ⟨rfl, rfl⟩ ?_ ?_ hw
    · intro w tid choice b rest _ hok hthread ih
      cases b with
      | requestDisconnect pSession =>
        simp only [FirstReturns, Stacks.runs_eq hthread, Option.bind_some, asked, Option.all_some,
          beq_iff_eq] at hok
        simp only [service, TickPc.exec, requestDisconnect]
        split
        · rename_i hset
          rw [if_pos (by simpa [hset] using hok)]
          exact ih
        · rename_i hnew
          rw [if_neg (by simpa [hnew] using hok)]
          exact ih
      | _ => exact ih
    · intro pSession c ih
      exact ih
  rw [countsSessions_iff hw, hnone.1, hnone.2]

/-- The timer is started, and the ticks that follow find the same session idle each time. -/
def idleTicks (ticks : Nat) : List (Label Nat) :=
  let next : Choice (Input Nat) := ⟨false, ⟨some [some 7, none], 20000, 5000, false⟩⟩
  [.spawn .start, .run 0 next, .run 0 next, .run 0 next] ++
    (List.range ticks).flatMap fun tick =>
      .spawn (.tick 1) :: List.replicate 9 (.run (tick + 1) next)

theorem idle_disconnects_counted_once :
    ∃ w, (system ⟨10000, true⟩).runUnder FirstReturns ⟨Shared.initial .initial, []⟩
        (idleTicks 1) = some w ∧
      (decide (w.shared.own.disconnectCount = 1 ∧ w.shared.own.initiated = [7])) = true ∧
      CountsSessions w := by
  obtain ⟨w, hrun, htest⟩ := System.exists_of_runUnder (system ⟨10000, true⟩) FirstReturns
    ⟨Shared.initial .initial, []⟩ (idleTicks 1) (fun w =>
      decide (w.shared.own.disconnectCount = 1 ∧ w.shared.own.initiated = [7])) (by decide +kernel)
  have hinit : (system ⟨10000, true⟩).init
    (⟨Shared.initial .initial, []⟩ : World Nat) := ⟨rfl, rfl⟩
  exact ⟨w, hrun, htest, idle_disconnects_counted (.of_runUnder (.init hinit) hrun)⟩

/-- The second tick counts the session again. -/
theorem not_idle_disconnects_counted :
    ¬ ∀ w : World Nat, (system ⟨10000, true⟩).Reach System.free w → CountsSessions w := by
  intro h
  obtain ⟨w, hrun, htest⟩ := System.exists_of_runUnder (system ⟨10000, true⟩) System.free
    ⟨Shared.initial .initial, []⟩ (idleTicks 2) (fun w =>
      decide (w.shared.own.disconnectCount = 2 ∧ w.shared.own.initiated = [7])) (by decide +kernel)
  have hinit : (system ⟨10000, true⟩).init
    (⟨Shared.initial .initial, []⟩ : World Nat) := ⟨rfl, rfl⟩
  obtain ⟨hcount, hinitiated⟩ := of_decide_eq_true htest
  have hcounted := (h w (.of_runUnder (.init hinit) hrun)).counted
  rw [hcount, hinitiated, List.length_singleton] at hcounted
  omega

end FastPort.Services.SessionIdleChecker
