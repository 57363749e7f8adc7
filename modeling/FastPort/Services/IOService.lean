import Mathlib.Data.List.Basic

/-! The worker loop of `IOService`: what one worker does with the results it
dequeues from the completion port, against what it is there to do. -/
namespace FastPort.Services

/-- What `GetQueuedCompletionStatus` gives: its own result, the code of
`GetLastError` when it failed, and its three out parameters. -/
structure CompletionStatus where
  result : Bool
  error : UInt32
  bytesTransferred : UInt32
  completionId : UInt64
  overlapped : UInt64
deriving DecidableEq, Repr

/-- A call of `OnIOCompleted` on the consumer that a completion key names. -/
structure Dispatch where
  consumer : UInt64
  success : Bool
  bytesTransferred : UInt32
  overlapped : UInt64
deriving DecidableEq, Repr

def errorNetnameDeleted : UInt32 := 64
def errorAbandonedWait0 : UInt32 := 735
def errorConnectionAborted : UInt32 := 1236

def threadShutdownCompletionKey : UInt64 := 0xFFFFFFFFFFFFFFFF

namespace CompletionStatus

def dispatch (s : CompletionStatus) (success : Bool) : Option Dispatch :=
  if s.completionId = 0 then none
  else some ⟨s.completionId, success, s.bytesTransferred, s.overlapped⟩

def failed (s : CompletionStatus) (code : UInt32) : Prop :=
  s.result = false ∧ s.error = code

instance (s : CompletionStatus) (code : UInt32) : Decidable (s.failed code) :=
  inferInstanceAs (Decidable (_ ∧ _))

/-- The shutdown key, or a port that was closed. -/
def ends (s : CompletionStatus) : Prop :=
  s.completionId = threadShutdownCompletionKey ∨ s.failed errorAbandonedWait0

instance (s : CompletionStatus) : Decidable s.ends := inferInstanceAs (Decidable (_ ∨ _))

end CompletionStatus

inductive Turn where
  | leave
  | next (dispatch : Option Dispatch)
deriving DecidableEq

def dispatchResult (s : CompletionStatus) : Turn :=
  if threadShutdownCompletionKey = s.completionId then .leave else .next (s.dispatch s.result)

/-- The body of the loop. A failure that neither test names is only logged, with
the exception of `ERROR_OPERATION_ABORTED`, and falls through. -/
def turn (s : CompletionStatus) : Turn :=
  if s.result then dispatchResult s
  else if errorAbandonedWait0 = s.error ∨ errorConnectionAborted = s.error then .leave
  else if errorNetnameDeleted = s.error ∨ errorConnectionAborted = s.error then
    .next (s.dispatch false)
  else dispatchResult s

/-- The dispatches of a worker, and the results it left behind if it left its
loop. -/
structure WorkerRun where
  dispatched : List Dispatch
  left : Option (List CompletionStatus)
deriving DecidableEq

def WorkerRun.after (dispatch : Option Dispatch) (run : WorkerRun) : WorkerRun :=
  ⟨dispatch.toList ++ run.dispatched, run.left⟩

def worker : List CompletionStatus → WorkerRun
  | [] => ⟨[], none⟩
  | s :: rest =>
      match turn s with
      | .leave => ⟨[], some rest⟩
      | .next dispatch => (worker rest).after dispatch

/-- What a worker is there to do: hand each result to its consumer as it is, up
to the shutdown key or the closing of the port. -/
def delivers : List CompletionStatus → WorkerRun
  | [] => ⟨[], none⟩
  | s :: rest =>
      if s.ends then ⟨[], some rest⟩ else (delivers rest).after (s.dispatch s.result)

/-- A result on which the loop goes on and stops as it is there to do: a failure
with `ERROR_CONNECTION_ABORTED` is no reason to leave, one with
`ERROR_NETNAME_DELETED` no reason to ignore the shutdown key. -/
structure Sound (s : CompletionStatus) : Prop where
  goesOn : s.failed errorConnectionAborted → s.ends
  stops : s.failed errorNetnameDeleted → s.completionId ≠ threadShutdownCompletionKey

theorem turn_of_ends {s : CompletionStatus} (h : s.ends) (hsound : Sound s) :
    turn s = .leave := by
  have hstops := hsound.stops
  unfold CompletionStatus.ends CompletionStatus.failed at *
  unfold turn dispatchResult
  grind

theorem turn_of_not_ends {s : CompletionStatus} (h : ¬ s.ends) (hsound : Sound s) :
    turn s = .next (s.dispatch s.result) := by
  have hgoesOn := hsound.goesOn
  unfold CompletionStatus.ends CompletionStatus.failed at *
  unfold turn dispatchResult
  grind

theorem turn_of_not_sound {s : CompletionStatus} (h : ¬ Sound s) :
    (¬ s.ends ∧ turn s = .leave) ∨ (s.ends ∧ turn s = .next (s.dispatch false)) := by
  by_cases hstops : s.failed errorNetnameDeleted → s.completionId ≠ threadShutdownCompletionKey
  · left
    by_cases hgoesOn : s.failed errorConnectionAborted → s.ends
    · exact absurd ⟨hgoesOn, hstops⟩ h
    · obtain ⟨⟨hresult, herror⟩, hends⟩ := Classical.not_imp.mp hgoesOn
      exact ⟨hends, by simp [turn, hresult, herror]⟩
  · right
    obtain ⟨⟨hresult, herror⟩, hkey⟩ := Classical.not_imp.mp hstops
    refine ⟨.inl (not_not.mp hkey), ?_⟩
    simp [turn, hresult, herror, errorNetnameDeleted, errorAbandonedWait0, errorConnectionAborted]

theorem left_length_lt {run : List CompletionStatus → WorkerRun} (hnil : (run []).left = none)
    (hcons : ∀ s rest, (run (s :: rest)).left = some rest ∨
      (run (s :: rest)).left = (run rest).left)
    {results rest : List CompletionStatus} (h : (run results).left = some rest) :
    rest.length < results.length := by
  induction results with
  | nil => simp [hnil] at h
  | cons s results ih =>
    rcases hcons s results with hleave | hnext
    · rw [hleave] at h
      cases h
      exact Nat.lt_succ_self _
    · rw [hnext] at h
      exact Nat.lt_succ_of_lt (ih h)

theorem worker_left (s : CompletionStatus) (rest : List CompletionStatus) :
    (worker (s :: rest)).left = some rest ∨ (worker (s :: rest)).left = (worker rest).left := by
  rw [worker]
  split
  · exact .inl rfl
  · exact .inr rfl

theorem delivers_left (s : CompletionStatus) (rest : List CompletionStatus) :
    (delivers (s :: rest)).left = some rest ∨
      (delivers (s :: rest)).left = (delivers rest).left := by
  rw [delivers]
  split
  · exact .inl rfl
  · exact .inr rfl

theorem after_inj {dispatch : Option Dispatch} {run run' : WorkerRun} :
    run.after dispatch = run'.after dispatch ↔ run = run' := by
  cases run
  cases run'
  simp [WorkerRun.after]

/-- A worker hands on what it is there to hand on, and leaves when it is to
leave, exactly if every result up to the first end is a sound one. -/
theorem worker_eq_delivers_iff (results : List CompletionStatus) :
    worker results = delivers results ↔
      ∀ before s rest, results = before ++ s :: rest → (∀ b ∈ before, ¬ b.ends) → Sound s := by
  induction results with
  | nil => simp [worker, delivers]
  | cons s results ih =>
    by_cases hsound : Sound s
    · by_cases hends : s.ends
      · -- the worker leaves: nothing that follows matters
        simp only [worker, turn_of_ends hends hsound, delivers, if_pos hends, true_iff]
        intro before u rest hsplit hbefore
        cases before with
        | nil =>
          cases hsplit
          exact hsound
        | cons b before =>
          cases hsplit
          exact absurd hends (hbefore _ List.mem_cons_self)
      · simp only [worker, turn_of_not_ends hends hsound, delivers, if_neg hends, after_inj, ih]
        constructor
        · intro h before u rest hsplit hbefore
          cases before with
          | nil =>
            cases hsplit
            exact hsound
          | cons b before =>
            cases hsplit
            exact h before u rest rfl fun c hc => hbefore c (List.mem_cons_of_mem _ hc)
        · intro h before u rest hsplit hbefore
          apply h (s :: before) u rest (by rw [hsplit, List.cons_append])
          intro c hc
          rcases List.mem_cons.mp hc with rfl | hc
          · exact hends
          · exact hbefore c hc
    · refine iff_of_false ?_ fun h => hsound (h [] s results rfl (by simp))
      intro heq
      have hleft := congrArg WorkerRun.left heq
      rcases turn_of_not_sound hsound with ⟨hends, hturn⟩ | ⟨hends, hturn⟩
      · simp only [worker, hturn, delivers, if_neg hends] at hleft
        have hlt := left_length_lt rfl delivers_left hleft.symm
        omega
      · simp only [worker, hturn, delivers, if_pos hends] at hleft
        have hlt := left_length_lt rfl worker_left hleft
        omega

/-- A connection that the local stack gave up ends the worker, and its session
never hears of it. -/
theorem not_worker_eq_delivers :
    ¬ ∀ results : List CompletionStatus, worker results = delivers results :=
  fun h => absurd (h [⟨false, errorConnectionAborted, 0, 4096, 8192⟩]) (by decide)

end FastPort.Services
