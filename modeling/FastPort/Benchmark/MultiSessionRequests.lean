import FastPort.Benchmark.MultiSessionPhases

/-! The requests of one session follow each other: in each phase a session has one turn,
which is a call of `sendNext`, or the request that the call has led to. -/
namespace FastPort.Benchmark.MultiSession

open FastPort.Foundation.Pool FastPort.Foundation.Stack FastPort.Foundation.Tally
open FastPort.Foundation.Transition FastPort.Foundation.WaitSet

variable {setup : Setup} {ok : World → Label → Prop} {w : World}

def ofTurn (i : Nat) (m : Bool) (session : Nat) (measured : Bool) : Nat :=
  if session = i ∧ measured = m then 1 else 0

/-- The call for the session `i` in the phase `m` that a main thread makes which is at
`session` in the phase `measured`. -/
def pending (i : Nat) (m measured : Bool) (session : Nat) : Nat :=
  if measured = m then if session ≤ i then 1 else 0 else m.toNat

/-- The calls of `sendNext` for the session `i` in the phase `m` that have not taken a
ticket. -/
def Frame.calls (i : Nat) (m : Bool) : Frame → Nat
  | sendNext session measured .main .claim =>
      ofTurn i m session measured + pending i m measured (session + 1)
  | sendNext session measured (.handler _) .claim => ofTurn i m session measured
  | sendNext session measured .main _ => pending i m measured (session + 1)
  | sendNext _ _ (.handler _) _ => 0
  | handler _ _ => 0
  | main (.send measured session) => pending i m measured session
  | main (.await measured) => if measured then 0 else m.toNat
  | main (.waiting measured _) => if measured then 0 else m.toNat
  | main .startMeasured => m.toNat

def Frame.turn (i : Nat) (m : Bool) (f : Frame) : Nat := f.job (ofTurn i m) + f.calls i m

structure Turn (setup : Setup) (i : Nat) (m : Bool) (s : Shared) (turns : Nat) : Prop where
  le_one : queued (ofTurn i m) s.requests s.responses + turns ≤ 1
  before : s.started = false → queued (ofTurn i m) s.requests s.responses + turns = 0
  started : s.started = true → i < setup.sessionCount → s.next m < setup.limit m →
    queued (ofTurn i m) s.requests s.responses + turns = 1

theorem Turn.congr {i n n' : Nat} {m : Bool} {s s' : Shared} (h : Turn setup i m s n)
    (hstarted : s'.started = s.started) (hnext : s.next m ≤ s'.next m)
    (hsame : queued (ofTurn i m) s'.requests s'.responses + n' =
      queued (ofTurn i m) s.requests s.responses + n) : Turn setup i m s' n' where
  le_one := hsame ▸ h.le_one
  before hbefore := by
    rw [hsame]
    exact h.before (hstarted ▸ hbefore)
  started hafter hi hlt := by
    rw [hsame]
    exact h.started (hstarted ▸ hafter) hi (Nat.lt_of_le_of_lt hnext hlt)

theorem Turn.ends {i n n' : Nat} {m : Bool} {s s' : Shared} (h : Turn setup i m s n)
    (hstarted : s'.started = s.started)
    (hle : queued (ofTurn i m) s'.requests s'.responses + n' ≤
      queued (ofTurn i m) s.requests s.responses + n)
    (hend : i < setup.sessionCount → setup.limit m ≤ s'.next m) : Turn setup i m s' n' where
  le_one := Nat.le_trans hle h.le_one
  before hbefore := by
    have hzero := h.before (hstarted ▸ hbefore)
    omega
  started _ hi hlt := absurd (hend hi) (Nat.not_le_of_lt hlt)

theorem ofTurn_add_pending (i : Nat) (m measured : Bool) (session : Nat) :
    ofTurn i m session measured + pending i m measured (session + 1) =
      pending i m measured session := by
  unfold ofTurn pending
  by_cases hmeasured : measured = m
  · simp only [hmeasured, and_true, if_true]
    split_ifs <;> omega
  · simp only [hmeasured, and_false, if_false, Nat.zero_add]

theorem Frame.Steps.turn {s s' : Shared} {f : Frame} {fs : List Frame} {i : Nat} {m : Bool}
    {others : Nat} (hsteps : f.Steps setup s s' fs) (hformed : f.Formed) (hfits : f.Fits s)
    (h : Turn setup i m s (f.turn i m + others)) :
    Turn setup i m s' (tally (Frame.turn i m) fs + others) := by
  cases hsteps with
  | claims session measured caller hlt =>
    refine h.congr rfl (le_bump _ _ _) ?_
    cases caller with
    | _ =>
      simp only [tally_cons, tally_nil, Frame.turn, job, calls]
      omega
  | exhaustedMain session measured hle =>
    by_cases hmeasured : measured = m
    · subst hmeasured
      refine h.ends rfl ?_ fun _ => Nat.le_trans hle (le_bump _ _ _)
      simp only [tally_cons, tally_nil, Frame.turn, job, calls]
      omega
    · refine h.congr rfl (le_bump _ _ _) ?_
      simp only [tally_cons, tally_nil, Frame.turn, job, calls, ofTurn, hmeasured, and_false,
        if_false]
      omega
  | exhausted session measured hle | exhaustedLast session measured hle =>
    by_cases hmeasured : measured = m
    · subst hmeasured
      refine h.ends rfl ?_ fun _ => Nat.le_trans hle (le_bump _ _ _)
      simp only [tally_cons, tally_nil, Frame.turn, job, calls]
      omega
    · refine h.congr rfl (le_bump _ _ _) ?_
      simp only [tally_cons, tally_nil, Frame.turn, job, calls, ofTurn, hmeasured, and_false,
        if_false]
  | prepares caller | storesPayloadIndex session measured caller
  | storesSendTime session measured caller =>
    refine h.congr rfl (Nat.le_refl _) ?_
    cases caller with
    | _ => rfl
  | sendsMain session measured request | sends session measured done request =>
    obtain ⟨hsession, hmeasured⟩ := hformed
    refine h.congr rfl (Nat.le_refl _) ?_
    rw [queued_send, hsession, hmeasured]
    simp only [tally_cons, tally_nil, Frame.turn, job, calls]
    omega
  | startsWarmup session response hrunning | startsMeasured session response recvTime hrunning =>
    have hphase := hfits session response rfl
    rw [hrunning] at hphase
    refine h.congr rfl (Nat.le_refl _) ?_
    simp only [tally_cons, tally_nil, Frame.turn, job, calls, hphase, Nat.add_zero]
  | nextSession measured hlt =>
    refine h.congr rfl (Nat.le_refl _) ?_
    simp only [tally_cons, tally_nil, Frame.turn, job, calls, ofTurn_add_pending]
    omega
  | @lastSession session measured hle =>
    by_cases hi : i < setup.sessionCount
    · refine h.congr rfl (Nat.le_refl _) ?_
      have hlt : ¬ session ≤ i := by omega
      cases measured with
      | _ => cases m with
        | _ => simp [Frame.turn, job, calls, pending, hlt]
    · refine h.ends rfl ?_ (absurd · hi)
      cases measured with
      | _ => cases m with
        | _ => simp [Frame.turn, job, calls, pending]
  | switches =>
    refine h.congr rfl (Nat.le_refl _) ?_
    cases m with
    | _ => simp [Frame.turn, job, calls, pending]
  | loadsSendTime | loadsPayloadIndex | addsSample | notifies | returns | finishes | waits | wakes
  | wakesSpuriously | blocked => exact h.congr rfl (Nat.le_refl _) rfl
  | _ =>
    refine h.congr rfl (Nat.le_refl _) ?_
    simp only [tally_cons, tally_nil, Frame.turn, job, calls, Bool.false_eq_true, if_false]
    omega

theorem Shared.Arrived.turn {s s' : Shared} {event : Event} {fs : List Frame} {i turns : Nat}
    {m : Bool} (harrived : s.Arrived setup event s' fs) (h : Turn setup i m s turns) :
    Turn setup i m s' (tally (Frame.turn i m) fs + turns) := by
  cases harrived with
  | start hstarted hpc =>
    have hbefore := h.before hstarted
    rcases hpc with ⟨hpos, rfl⟩ | ⟨hzero, rfl⟩
    · have hone : Frame.turn i m (.main (.send false 0)) = 1 := by
        cases m with
        | _ => simp [Frame.turn, Frame.job, Frame.calls, pending]
      rw [tally_cons, tally_nil, hone]
      constructor
      · simp only
        omega
      · rintro ⟨⟩
      · intro _ _ _
        simp only
        omega
    · have hone : Frame.turn i m (.main .startMeasured) = m.toNat := Nat.zero_add _
      have hle := Bool.toNat_le m
      rw [tally_cons, tally_nil, hone]
      constructor
      · simp only
        omega
      · rintro ⟨⟩
      · intro _ _ hlt
        cases m with
        | false =>
          rw [hzero] at hlt
          exact absurd hlt (Nat.not_lt_zero _)
        | true =>
          simp only [Bool.toNat_true]
          omega
  | answer hrequest =>
    refine h.congr rfl (Nat.le_refl _) ?_
    rw [queued_answer _ hrequest, tally_nil, Nat.zero_add]
  | deliver hresponse =>
    have hqueued := queued_deliver (ofTurn i m) s.requests hresponse
    refine h.congr rfl (Nat.le_refl _) ?_
    simp only [tally_cons, tally_nil, Frame.turn, Frame.job, Frame.calls]
    omega

theorem turn (i : Nat) (m : Bool) (hw : (system setup).Reach ok w) :
    Turn setup i m w.shared (w.weigh (Frame.turn i m)) := by
  apply step_focus (Frame.turn i m) (J := Turn setup i m) ?_ ?_ ?_ hw
  · exact ⟨Nat.zero_le _, fun _ => rfl, fun h => nomatch h⟩
  · intro w tid f rest s' fs others hreach hthread hsteps ih
    exact hsteps.turn (formed_top hreach hthread) (fits hreach hthread) ih
  · intro w event s' fs _ harrived ih
    exact harrived.turn ih

/-- The requests that are prepared, sent, answered, or being handled. -/
def outstanding (v : Nat → Bool → Nat) (w : World) : Nat :=
  queued v w.shared.requests w.shared.responses + w.weigh (Frame.job v)

theorem Frame.job_le_add {v u t : Nat → Bool → Nat}
    (h : ∀ session measured, v session measured ≤ u session measured + t session measured)
    (f : Frame) : f.job v ≤ f.job u + f.job t := by
  cases f with
  | sendNext session measured caller pc =>
    cases pc with
    | claim => exact Nat.le_refl _
    | _ => exact h session measured
  | handler session pc =>
    cases pc with
    | start response => exact h session response.measured
    | completeWarmup => exact h session false
    | notify | returns => exact Nat.le_refl _
    | _ => exact h session true
  | main pc => exact Nat.le_refl _

theorem outstanding_le_add {v u t : Nat → Bool → Nat}
    (h : ∀ session measured, v session measured ≤ u session measured + t session measured)
    (w : World) : outstanding v w ≤ outstanding u w + outstanding t w := by
  have hframes := Stacks.weigh_le_weigh (Frame.job_le_add h) w
  have hqueue : ∀ queue : List Request, tally (fun r => v r.session r.measured) queue ≤
      tally (fun r => u r.session r.measured) queue +
        tally (fun r => t r.session r.measured) queue := by
    intro queue
    rw [← tally_add]
    exact tally_le_tally fun r _ => h r.session r.measured
  have hrequests := hqueue w.shared.requests
  have hresponses := hqueue w.shared.responses
  rw [Stacks.weigh_add] at hframes
  unfold outstanding queued
  omega

theorem Frame.job_le_inMeasured (f : Frame) : f.job (ofPhase true) ≤ f.inMeasured := by
  cases f with
  | sendNext session measured caller pc =>
    cases measured with
    | false => exact Nat.le_trans (by cases pc with | _ => exact Nat.le_refl _) (Nat.zero_le _)
    | true =>
      cases pc with
      | claim => exact Nat.zero_le _
      | prepare => exact Nat.le_refl _
      | _ => exact Nat.le_add_right _ _
  | handler session pc =>
    cases pc with
    | start response =>
      cases hphase : response.measured with
      | _ => simp [job, inMeasured, ofPhase, hphase]
    | completeWarmup | notify | returns => exact Nat.zero_le _
    | _ => exact Nat.le_refl _
  | main pc => exact Nat.zero_le _

theorem outstanding_other (hw : (system setup).Reach ok w) :
    outstanding (ofPhase (!w.shared.runningMeasured)) w = 0 := by
  cases hrunning : w.shared.runningMeasured with
  | false =>
    have hnone := not_inMeasured hw hrunning
    have hframes := Stacks.weigh_le_weigh Frame.job_le_inMeasured w
    have hphase : ofPhase true = fun _ measured => measured.toNat := by
      funext session measured
      cases measured with
      | _ => rfl
    rw [← hphase] at hnone
    rw [Bool.not_false, outstanding]
    omega
  | true =>
    have hcounted := counted_warmup hw
    have hdone := warmup_done hw hrunning
    unfold Counted at hcounted
    unfold outstanding
    rw [Bool.not_true]
    omega

theorem outstanding_turn_le_one (i : Nat) (m : Bool) (hw : (system setup).Reach ok w) :
    outstanding (ofTurn i m) w ≤ 1 := by
  have hturn := (turn i m hw).le_one
  have hframes : w.weigh (Frame.job (ofTurn i m)) ≤ w.weigh (Frame.turn i m) :=
    Stacks.weigh_le_weigh (fun f => Nat.le_add_right _ _) w
  unfold outstanding
  omega

theorem moved {w' : World} {l : Label} (h : (system setup).step w l = some w') :
    (program setup).machine.Moved w l w' :=
  Machine.moved_of_step (m := (program setup).machine) h

def ofSession (i session : Nat) (_ : Bool) : Nat := if session = i then 1 else 0

theorem outstanding_session_le_one (i : Nat) (hw : (system setup).Reach ok w) :
    outstanding (ofSession i) w ≤ 1 := by
  have hle : outstanding (ofSession i) w ≤ outstanding (ofTurn i w.shared.runningMeasured) w +
      outstanding (ofPhase (!w.shared.runningMeasured)) w := by
    apply outstanding_le_add
    intro session measured
    unfold ofSession ofTurn ofPhase
    by_cases hmeasured : measured = w.shared.runningMeasured
    · simp [hmeasured]
    · have hother : measured = !w.shared.runningMeasured := Bool.eq_not_of_ne hmeasured
      simp only [hother, if_true]
      split <;> omega
  have hone := outstanding_turn_le_one i w.shared.runningMeasured hw
  have hnone := outstanding_other hw
  omega

theorem Frame.Steps.of_switch {s s' : Shared} {f : Frame} {fs : List Frame}
    (hsteps : f.Steps setup s s' fs) (hbefore : s.runningMeasured = false)
    (hafter : s'.runningMeasured = true) : f = .main .startMeasured := by
  cases hsteps with
  | switches => rfl
  | _ =>
    rw [show s.runningMeasured = true from hafter] at hbefore
    cases hbefore

theorem none_at_switch {w' : World} {l : Label} (hw : (system setup).Reach ok w)
    (hstep : (system setup).step w l = some w') (hbefore : w.shared.runningMeasured = false)
    (hafter : w'.shared.runningMeasured = true) : outstanding (fun _ _ => 1) w = 0 := by
  have hother := outstanding_other hw
  rw [hbefore, Bool.not_false] at hother
  have hle : outstanding (fun _ _ => 1) w ≤
      outstanding (ofPhase false) w + outstanding (ofPhase true) w := by
    apply outstanding_le_add
    intro session measured
    cases measured with
    | _ => exact Nat.le_refl _
  have hcounted := counted_warmup hw
  cases moved hstep with
  | @spawn event fs s' hspawn =>
    have harrived : w.shared.arrive setup event = some (s', fs) := hspawn
    cases Shared.arrived harrived with
    | _ =>
      rw [show w.shared.runningMeasured = true from hafter] at hbefore
      cases hbefore
  | @run tid choice stack stack' s' hthread hrun =>
    cases stack with
    | nil => cases hrun
    | cons f rest =>
      cases hrun
      have hf := (f.steps_exec setup choice w.shared).of_switch hbefore hafter
      have hstage := (staged hw).stage _ (List.mem_of_getElem? hthread) f List.mem_cons_self
      rw [hf] at hstage
      obtain ⟨-, hdone, -⟩ := hstage Nat.one_pos
      unfold Counted at hcounted
      unfold outstanding at *
      omega

end FastPort.Benchmark.MultiSession
