/-! A timer of the Windows thread pool, as far as its documentation goes: a timer that is
set queues callbacks, once or with a period; setting it without a due time ends that and
leaves what is queued; a wait can withdraw what is queued and lasts until nothing is
outstanding; after `CloseThreadpoolTimer` no call may be made on the handle. -/
namespace FastPort.Foundation.ThreadpoolTimer

/-- `armed` is the period, while the timer is set. -/
structure TpTimer where
  armed : Option Nat
  queued : Nat
  running : Nat
  closed : Nat
  misused : Bool
deriving DecidableEq, Repr

namespace TpTimer

def created : TpTimer := ⟨none, 0, 0, 0, false⟩

def call (t : TpTimer) : TpTimer := { t with misused := t.misused || decide (0 < t.closed) }

def set (period : Nat) (t : TpTimer) : TpTimer := { t.call with armed := some period }

def cease (t : TpTimer) : TpTimer := { t.call with armed := none }

def withdraw (fCancelPendingCallbacks : Bool) (t : TpTimer) : TpTimer :=
  { t.call with queued := if fCancelPendingCallbacks then 0 else t.queued }

def outstanding (t : TpTimer) : Nat := t.queued + t.running

def close (t : TpTimer) : TpTimer := { t.call with closed := t.closed + 1 }

def expire (t : TpTimer) : Option TpTimer :=
  t.armed.map fun period =>
    { t with armed := if period = 0 then none else some period, queued := t.queued + 1 }

def start (t : TpTimer) : Option TpTimer :=
  if 0 < t.queued then some { t with queued := t.queued - 1, running := t.running + 1 } else none

def finish (t : TpTimer) : TpTimer := { t with running := t.running - 1 }

structure Still (t : TpTimer) : Prop where
  armed : t.armed = none
  queued : t.queued = 0
  running : t.running = 0

instance (t : TpTimer) : Decidable t.Still :=
  decidable_of_iff (t.armed = none ∧ t.queued = 0 ∧ t.running = 0)
    ⟨fun h => ⟨h.1, h.2.1, h.2.2⟩, fun h => ⟨h.armed, h.queued, h.running⟩⟩

variable {t t' : TpTimer} {period : Nat} {pending : Bool}

@[simp] theorem created_closed : created.closed = 0 := rfl

@[simp] theorem set_running : (t.set period).running = t.running := rfl
@[simp] theorem set_closed : (t.set period).closed = t.closed := rfl

@[simp] theorem cease_running : t.cease.running = t.running := rfl
@[simp] theorem cease_closed : t.cease.closed = t.closed := rfl

@[simp] theorem withdraw_running : (t.withdraw pending).running = t.running := rfl
@[simp] theorem withdraw_closed : (t.withdraw pending).closed = t.closed := rfl

theorem withdraw_queued_le : (t.withdraw pending).queued ≤ t.queued := by
  simp only [withdraw, call]
  split <;> omega

@[simp] theorem close_running : t.close.running = t.running := rfl
@[simp] theorem close_closed : t.close.closed = t.closed + 1 := rfl

@[simp] theorem finish_running : t.finish.running = t.running - 1 := rfl
@[simp] theorem finish_closed : t.finish.closed = t.closed := rfl

theorem call_misused (hopen : t.closed = 0) : t.call.misused = t.misused := by
  simp [call, hopen]

theorem exists_of_expire (h : t.expire = some t') : ∃ period, t.armed = some period ∧
    t' = { t with armed := if period = 0 then none else some period, queued := t.queued + 1 } := by
  obtain ⟨period, harmed, hnext⟩ := Option.map_eq_some_iff.mp h
  exact ⟨period, harmed, hnext.symm⟩

theorem of_start (h : t.start = some t') : 0 < t.queued ∧
    t' = { t with queued := t.queued - 1, running := t.running + 1 } := by
  simp only [start, Option.ite_none_right_eq_some, Option.some.injEq] at h
  exact ⟨h.1, h.2.symm⟩

theorem Still.cease (h : t.Still) : t.cease.Still := ⟨rfl, h.queued, h.running⟩

theorem Still.withdraw (h : t.Still) : (t.withdraw pending).Still :=
  ⟨h.armed, Nat.le_zero.mp (h.queued ▸ withdraw_queued_le), h.running⟩

theorem Still.close (h : t.Still) : t.close.Still := ⟨h.armed, h.queued, h.running⟩

theorem Still.finish (h : t.Still) : t.finish.Still :=
  ⟨h.armed, h.queued, by rw [finish_running, h.running]⟩

end TpTimer

end FastPort.Foundation.ThreadpoolTimer
