import FastPort.Benchmark.MultiSession

/-! The two phases of the run: who is in which, what has been counted in each, and that a
session has one request at a time. -/
namespace FastPort.Benchmark.MultiSession

open FastPort.Foundation.Pool FastPort.Foundation.Stack FastPort.Foundation.Tally
open FastPort.Foundation.Transition FastPort.Foundation.WaitSet

variable {setup : Setup} {ok : World → Label → Prop} {w : World}

theorem step_focus (weight : Frame → Nat) {J : Shared → Nat → Prop} (hinit : J .initial 0)
    (hexec : ∀ (w : World) (tid : Nat) (f : Frame) (rest : List Frame) s' fs others,
      (system setup).Reach ok w → w.threads[tid]? = some (f :: rest) →
      f.Steps setup w.shared s' fs → J w.shared (weight f + others) →
      J s' (tally weight fs + others))
    (harrive : ∀ w event s' fs, (system setup).Reach ok w → w.shared.Arrived setup event s' fs →
      J w.shared (w.weigh weight) → J s' (tally weight fs + w.weigh weight))
    (hw : (system setup).Reach ok w) : J w.shared (w.weigh weight) := by
  apply Program.focus (p := program setup) (fun s => s) weight ?_ ?_ ?_ hw
  · rintro s rfl
    exact hinit
  · intro w tid choice f rest others hreach _ hthread _ ih
    exact hexec w tid f rest _ _ others hreach hthread (f.steps_exec setup choice w.shared) ih
  · intro w event s' fs hreach _ harrived ih
    exact harrive w event s' fs hreach (Shared.arrived harrived) ih

@[simp] theorem bump_same (counter : Bool → Nat) (measured : Bool) :
    bump counter measured measured = counter measured + 1 := Function.update_self ..

theorem bump_ne {measured m : Bool} (h : m ≠ measured) (counter : Bool → Nat) :
    bump counter measured m = counter m := Function.update_of_ne h ..

theorem le_bump (counter : Bool → Nat) (measured m : Bool) :
    counter m ≤ bump counter measured m := by
  by_cases h : m = measured
  · rw [h, bump_same]
    exact Nat.le_succ _
  · exact Nat.le_of_eq (bump_ne h counter).symm

def queued (v : Nat → Bool → Nat) (requests responses : List Request) : Nat :=
  tally (fun r => v r.session r.measured) requests +
    tally (fun r => v r.session r.measured) responses

variable {requests responses : List Request} {index : Nat} {request response : Request}

theorem queued_send (v : Nat → Bool → Nat) (requests responses : List Request)
    (request : Request) :
    queued v (requests ++ [request]) responses =
      queued v requests responses + v request.session request.measured := by
  simp only [queued, tally_append, tally_cons, tally_nil]
  omega

theorem queued_answer (v : Nat → Bool → Nat) (h : requests[index]? = some request) :
    queued v (requests.eraseIdx index) (responses ++ [request]) = queued v requests responses := by
  have herase := tally_eraseIdx (fun r : Request => v r.session r.measured) h
  simp only [queued, tally_append, tally_cons, tally_nil]
  omega

theorem queued_deliver (v : Nat → Bool → Nat) (requests : List Request)
    (h : responses[index]? = some response) :
    queued v requests (responses.eraseIdx index) + v response.session response.measured =
      queued v requests responses := by
  have herase := tally_eraseIdx (fun r : Request => v r.session r.measured) h
  simp only [queued]
  omega

namespace Frame

def inMeasured : Frame → Nat
  | sendNext _ measured _ (.storePayloadIndex request _) => measured.toNat + request.measured.toNat
  | sendNext _ measured _ (.storeSendTime request) => measured.toNat + request.measured.toNat
  | sendNext _ measured _ (.sendMessage request) => measured.toNat + request.measured.toNat
  | sendNext _ measured _ _ => measured.toNat
  | handler _ (.start response) => response.measured.toNat
  | handler _ (.completeWarmup response) => response.measured.toNat
  | handler _ (.notify _) => 0
  | handler _ .returns => 0
  | handler _ _ => 1
  | main (.send measured _) => measured.toNat
  | main (.await measured) => measured.toNat
  | main (.waiting measured _) => measured.toNat
  | main .startMeasured => 0

def isMain : Frame → Nat
  | sendNext _ _ .main _ => 1
  | main _ => 1
  | _ => 0

end Frame

theorem not_inMeasured (hw : (system setup).Reach ok w)
    (hrunning : w.shared.runningMeasured = false) :
    queued (fun _ measured => measured.toNat) w.shared.requests w.shared.responses +
      w.weigh Frame.inMeasured = 0 := by
  apply step_focus Frame.inMeasured (J := fun s n => s.runningMeasured = false →
    queued (fun _ measured => measured.toNat) s.requests s.responses + n = 0) ?_ ?_ ?_ hw hrunning
  · intro _
    rfl
  · intro w tid f rest s' fs others _ _ hsteps ih hrunning
    cases hsteps with
    | switches => cases hrunning
    | startsMeasured session response recvTime hstarted =>
      rw [show w.shared.runningMeasured = false from hrunning] at hstarted
      cases hstarted
    | sendsMain | sends =>
      have hzero := ih hrunning
      rw [queued_send]
      simp only [tally_cons, tally_nil, Frame.inMeasured] at *
      omega
    | prepares caller ticket sequence hsession hmeasured hpayload =>
      have hzero := ih hrunning
      simp only [tally_cons, tally_nil, Frame.inMeasured, hmeasured,
        Shared.setContext_requests, Shared.setContext_responses] at *
      omega
    | _ =>
      have hzero := ih hrunning
      simp only [tally_cons, tally_nil, Frame.inMeasured, Bool.toNat_false,
        Shared.setContext_requests, Shared.setContext_responses] at *
      omega
  · intro w event s' fs _ harrived ih hrunning
    cases harrived with
    | start hstarted hpc =>
      have hzero := ih hrunning
      rcases hpc with ⟨-, rfl⟩ | ⟨-, rfl⟩
      · simpa [Frame.inMeasured] using hzero
      · simpa [Frame.inMeasured] using hzero
    | answer hrequest =>
      rw [queued_answer _ hrequest, tally_nil, Nat.zero_add]
      exact ih hrunning
    | deliver hresponse =>
      have hzero := ih hrunning
      have hqueued := queued_deliver (fun _ measured => measured.toNat) w.shared.requests hresponse
      simp only [tally_cons, tally_nil, Frame.inMeasured] at *
      omega

theorem isMain_eq (hw : (system setup).Reach ok w) :
    w.weigh Frame.isMain + w.shared.finished.toNat = w.shared.started.toNat := by
  apply step_focus Frame.isMain (J := fun s n => n + s.finished.toNat = s.started.toNat)
    rfl ?_ ?_ hw
  · intro w tid f rest s' fs others _ _ hsteps ih
    cases hsteps with
    | finishes hdone =>
      have hle := Bool.toNat_le w.shared.started
      simp only [tally_nil, Frame.isMain, Bool.toNat_true] at *
      omega
    | claims session measured caller | storesPayloadIndex session measured caller
    | storesSendTime session measured caller =>
      cases caller with
      | _ => exact ih
    | prepares caller =>
      cases caller with
      | _ => exact ih
    | _ =>
      simp only [tally_cons, tally_nil, Frame.isMain] at *
      omega
  · intro w event s' fs _ harrived ih
    cases harrived with
    | start hstarted hpc =>
      rw [hstarted] at ih
      simp only [tally_cons, tally_nil, Frame.isMain, Bool.toNat_false, Bool.toNat_true] at *
      omega
    | answer hrequest => simpa using ih
    | deliver hresponse => simpa [Frame.isMain] using ih

def InPhase (setup : Setup) (s : Shared) (measured : Bool) : Prop :=
  s.runningMeasured = measured ∧ (measured = true → setup.limit false ≤ s.completed false)

/-- What the main thread finds, by where it is. -/
def Stage (setup : Setup) (s : Shared) : Frame → Prop
  | .sendNext _ measured .main _ => InPhase setup s measured ∧ s.doneCv.waiters = []
  | .main (.send measured _) => InPhase setup s measured ∧ s.doneCv.waiters = []
  | .main (.await measured) => InPhase setup s measured ∧ s.doneCv.waiters = []
  | .main (.waiting measured ticket) => InPhase setup s measured ∧
      (s.doneCv.waiters = [] ∨ s.doneCv.waiters = [ticket])
  | .main .startMeasured => s.runningMeasured = false ∧ setup.limit false ≤ s.completed false ∧
      s.doneCv.waiters = []
  | _ => True

def Idle (setup : Setup) (s : Shared) : Prop :=
  s.doneCv.waiters = [] ∧ ((s.finished = false ∧ s.runningMeasured = false) ∨
    (s.finished = true ∧ InPhase setup s true ∧ setup.limit true ≤ s.completed true))

structure Later (s s' : Shared) : Prop where
  running : s'.runningMeasured = s.runningMeasured
  finished : s'.finished = s.finished
  completed : ∀ measured, s.completed measured ≤ s'.completed measured
  waiters : s'.doneCv.waiters = s.doneCv.waiters ∨ s'.doneCv.waiters = []

theorem Later.inPhase {s s' : Shared} {measured : Bool} (h : Later s s')
    (hphase : InPhase setup s measured) : InPhase setup s' measured :=
  ⟨h.running.trans hphase.1, fun hmeasured => Nat.le_trans (hphase.2 hmeasured) (h.completed false)⟩

theorem Later.waiters_nil {s s' : Shared} (h : Later s s') (hnil : s.doneCv.waiters = []) :
    s'.doneCv.waiters = [] := by
  rcases h.waiters with hsame | hnone
  · exact hsame.trans hnil
  · exact hnone

theorem Later.stage {s s' : Shared} {f : Frame} (h : Later s s') (hstage : Stage setup s f) :
    Stage setup s' f := by
  cases f with
  | sendNext session measured caller pc =>
    cases caller with
    | main => exact ⟨h.inPhase hstage.1, h.waiters_nil hstage.2⟩
    | handler done => trivial
  | handler session pc => trivial
  | main pc =>
    cases pc with
    | send | await => exact ⟨h.inPhase hstage.1, h.waiters_nil hstage.2⟩
    | waiting measured ticket =>
      refine ⟨h.inPhase hstage.1, ?_⟩
      rcases h.waiters with hsame | hnone
      · rw [hsame]
        exact hstage.2
      · exact .inl hnone
    | startMeasured =>
      obtain ⟨hrunning, hdone, hwaiters⟩ := hstage
      exact ⟨h.running.trans hrunning, Nat.le_trans hdone (h.completed false),
        h.waiters_nil hwaiters⟩

theorem Later.idle {s s' : Shared} (h : Later s s') (hidle : Idle setup s) : Idle setup s' := by
  refine ⟨h.waiters_nil hidle.1, hidle.2.imp ?_ ?_⟩
  · rintro ⟨hfinished, hrunning⟩
    exact ⟨h.finished.trans hfinished, h.running.trans hrunning⟩
  · rintro ⟨hfinished, hphase, hdone⟩
    exact ⟨h.finished.trans hfinished, h.inPhase hphase, Nat.le_trans hdone (h.completed true)⟩

theorem Frame.Steps.later {s s' : Shared} {f : Frame} {fs : List Frame}
    (hsteps : f.Steps setup s s' fs) (hother : f.isMain = 0) :
    Later s s' ∧ tally Frame.isMain fs = 0 := by
  cases hsteps with
  | completesWarmup =>
    exact ⟨⟨rfl, rfl, le_bump s.completed false, .inl rfl⟩, rfl⟩
  | completesMeasured =>
    exact ⟨⟨rfl, rfl, le_bump s.completed true, .inl rfl⟩, rfl⟩
  | notifies => exact ⟨⟨rfl, rfl, fun _ => Nat.le_refl _, .inr rfl⟩, rfl⟩
  | claims session measured caller | storesPayloadIndex session measured caller
  | storesSendTime session measured caller | prepares caller =>
    cases caller with
    | main => cases hother
    | handler done => exact ⟨⟨rfl, rfl, fun _ => Nat.le_refl _, .inl rfl⟩, rfl⟩
  | exhausted | exhaustedLast | sends | startsWarmup | startsMeasured | loadsSendTime
  | loadsPayloadIndex | addsSample | returns =>
    exact ⟨⟨rfl, rfl, fun _ => Nat.le_refl _, .inl rfl⟩, rfl⟩
  | _ => cases hother

theorem Frame.Steps.stage {s s' : Shared} {f : Frame} {fs : List Frame}
    (hsteps : f.Steps setup s s' fs) (hmain : 0 < f.isMain) (h : Stage setup s f) :
    Stacks.Settled Frame.isMain (Stage setup) (Idle setup) s' fs := by
  cases hsteps with
  | claims session measured caller | storesPayloadIndex session measured caller
  | storesSendTime session measured caller | prepares caller =>
    cases caller with
    | main => exact .cons h Nat.one_pos rfl
    | handler done => cases hmain
  | exhaustedMain | sendsMain | nextSession | lastSession => exact .cons h Nat.one_pos rfl
  | warmedUp hdone => exact .cons ⟨h.1.1, hdone, h.2⟩ Nat.one_pos rfl
  | finishes hdone => exact .of_idle ⟨h.2, .inr ⟨rfl, h.1, hdone⟩⟩ rfl
  | waits measured hlt =>
    have hwaiters : s.doneCv.wait.waiters = [s.doneCv.nextTicket] := by
      simp [Condition.wait, h.2]
    exact .cons ⟨h.1, .inr hwaiters⟩ Nat.one_pos rfl
  | wakes measured hgone =>
    refine .cons ⟨h.1, ?_⟩ Nat.one_pos rfl
    rcases h.2 with hnil | hone
    · exact hnil
    · exact absurd (hone ▸ List.mem_singleton_self _) hgone
  | wakesSpuriously measured hwaits =>
    refine .cons ⟨h.1, ?_⟩ Nat.one_pos rfl
    rcases h.2 with hnil | hone
    · exact Condition.leave_waiters_nil hnil
    · simp [Condition.leave, hone]
  | blocked => exact .cons h Nat.one_pos rfl
  | switches => exact .cons ⟨⟨rfl, fun _ => h.2.1⟩, h.2.2⟩ Nat.one_pos rfl
  | _ => cases hmain

theorem staged (hw : (system setup).Reach ok w) :
    Stacks.Staged Frame.isMain (Stage setup) (Idle setup) w := by
  apply Program.token (p := program setup) ?_ ?_ ?_ ?_ ?_ hw
  · intro w hw
    have hmain := isMain_eq hw
    have hle := Bool.toNat_le w.shared.started
    omega
  · rintro s rfl
    exact ⟨rfl, .inl ⟨rfl, rfl⟩⟩
  · intro w tid choice f rest _ _ _ hmain h
    exact (f.steps_exec setup choice w.shared).stage hmain h
  · intro w tid choice f rest _ _ _ hother
    obtain ⟨hlater, hnone⟩ := (f.steps_exec setup choice w.shared).later hother
    exact ⟨fun g _ h => hlater.stage h, fun hidle => .of_idle (hlater.idle hidle) hnone⟩
  · intro w event s' fs hreach _ harrived
    have hmain := isMain_eq hreach
    cases Shared.arrived harrived with
    | start hstarted hpc =>
      rw [hstarted, Bool.toNat_false] at hmain
      refine ⟨fun hsome => absurd hsome (by omega), fun _ hidle => ?_⟩
      have hbefore : w.shared.runningMeasured = false := by
        rcases hidle.2 with ⟨-, hrunning⟩ | ⟨hfinished, -⟩
        · exact hrunning
        · rw [hfinished, Bool.toNat_true] at hmain
          omega
      rcases hpc with ⟨-, rfl⟩ | ⟨hzero, rfl⟩
      · exact .cons ⟨⟨hbefore, fun h => nomatch h⟩, hidle.1⟩ Nat.one_pos rfl
      · refine .cons ⟨hbefore, ?_, hidle.1⟩ Nat.one_pos rfl
        rw [hzero]
        exact Nat.zero_le _
    | @answer index request hrequest =>
      have hlater : Later w.shared { w.shared with
          requests := w.shared.requests.eraseIdx index
          responses := w.shared.responses ++ [request] } :=
        ⟨rfl, rfl, fun _ => Nat.le_refl _, .inl rfl⟩
      exact ⟨fun _ g _ h => hlater.stage h, fun _ hidle => .of_idle (hlater.idle hidle) rfl⟩
    | @deliver index response hresponse =>
      have hlater : Later w.shared { w.shared with
          responses := w.shared.responses.eraseIdx index
          handling := w.shared.handling ++ [response.session] } :=
        ⟨rfl, rfl, fun _ => Nat.le_refl _, .inl rfl⟩
      exact ⟨fun _ g _ h => hlater.stage h, fun _ hidle => .of_idle (hlater.idle hidle) rfl⟩

theorem Stage.warmup_done {s : Shared} {f : Frame} (h : Stage setup s f) (hmain : 0 < f.isMain)
    (hrunning : s.runningMeasured = true) : setup.limit false ≤ s.completed false := by
  cases f with
  | sendNext session measured caller pc =>
    cases caller with
    | main => exact h.1.2 (h.1.1.symm.trans hrunning)
    | handler done => cases hmain
  | handler session pc => cases hmain
  | main pc =>
    cases pc with
    | send | await | waiting => exact h.1.2 (h.1.1.symm.trans hrunning)
    | startMeasured => exact h.2.1

theorem warmup_done (hw : (system setup).Reach ok w)
    (hrunning : w.shared.runningMeasured = true) :
    setup.limit false ≤ w.shared.completed false := by
  have h := staged hw
  by_cases hnone : w.weigh Frame.isMain = 0
  · rcases (h.idle hnone).2 with ⟨-, hbefore⟩ | ⟨-, hphase, -⟩
    · rw [hrunning] at hbefore
      cases hbefore
    · exact hphase.2 rfl
  · obtain ⟨stack, hstack, hpos⟩ := exists_of_tally_pos (Nat.pos_of_ne_zero hnone)
    obtain ⟨f, hf, hmain⟩ := exists_of_tally_pos hpos
    exact (h.stage stack hstack f hf hmain).warmup_done hmain hrunning

/-- A value for each request between its ticket and its count, by session and phase. The
phase of a handler is the one it has found. -/
def Frame.job (v : Nat → Bool → Nat) : Frame → Nat
  | sendNext _ _ _ .claim => 0
  | sendNext session measured _ _ => v session measured
  | handler session (.start response) => v session response.measured
  | handler session (.completeWarmup _) => v session false
  | handler _ (.notify _) => 0
  | handler _ .returns => 0
  | handler session _ => v session true
  | main _ => 0

def Frame.Formed : Frame → Prop
  | sendNext session measured _ (.storePayloadIndex request _) =>
      request.session = session ∧ request.measured = measured
  | sendNext session measured _ (.storeSendTime request) =>
      request.session = session ∧ request.measured = measured
  | sendNext session measured _ (.sendMessage request) =>
      request.session = session ∧ request.measured = measured
  | handler session (.start response) => response.session = session
  | _ => True

theorem Frame.Steps.formed {s s' : Shared} {f : Frame} {fs : List Frame}
    (hsteps : f.Steps setup s s' fs) (h : f.Formed) : ∀ g ∈ fs, g.Formed := by
  cases hsteps with
  | storesPayloadIndex | storesSendTime => exact List.forall_mem_singleton.mpr h
  | prepares caller ticket sequence hsession hmeasured hpayload =>
    exact List.forall_mem_singleton.mpr ⟨hsession, hmeasured⟩
  | finishes | returns => exact List.forall_mem_nil _
  | _ => exact List.forall_mem_singleton.mpr trivial

theorem formed (hw : (system setup).Reach ok w) : ∀ stack ∈ w.threads, ∀ f ∈ stack, f.Formed := by
  apply Program.forall_stack (p := program setup) (P := fun stack => ∀ f ∈ stack, f.Formed)
    ?_ ?_ hw
  · intro w tid choice f rest _ _ h
    obtain ⟨hf, hrest⟩ := List.forall_mem_cons.mp h
    exact List.forall_mem_append.mpr ⟨(f.steps_exec setup choice w.shared).formed hf, hrest⟩
  · intro w event s' fs _ _ harrived
    cases Shared.arrived harrived with
    | start => exact List.forall_mem_singleton.mpr trivial
    | answer => exact List.forall_mem_nil _
    | deliver => exact List.forall_mem_singleton.mpr rfl

theorem formed_top {tid : Nat} {f : Frame} {rest : List Frame} (hw : (system setup).Reach ok w)
    (hthread : w.threads[tid]? = some (f :: rest)) : f.Formed :=
  formed hw _ (List.mem_of_getElem? hthread) f List.mem_cons_self

theorem bump_apply (counter : Bool → Nat) (measured m : Bool) :
    bump counter measured m = counter m + if measured = m then 1 else 0 := by
  by_cases h : measured = m
  · rw [h, bump_same, if_pos rfl]
  · rw [bump_ne (Ne.symm h), if_neg h, Nat.add_zero]

def ofPhase (m : Bool) (_ : Nat) (measured : Bool) : Nat := if measured = m then 1 else 0

def Counted (setup : Setup) (m : Bool) (s : Shared) (jobs : Nat) : Prop :=
  s.completed m + queued (ofPhase m) s.requests s.responses + jobs =
    min (s.next m) (setup.limit m)

def Frame.Fits (s : Shared) (f : Frame) : Prop :=
  ∀ session response, f = .handler session (.start response) →
    response.measured = s.runningMeasured

theorem Frame.Steps.counted {s s' : Shared} {f : Frame} {fs : List Frame} {m : Bool}
    {others : Nat} (hsteps : f.Steps setup s s' fs) (hformed : f.Formed) (hfits : f.Fits s)
    (h : Counted setup m s (f.job (ofPhase m) + others)) :
    Counted setup m s' (tally (Frame.job (ofPhase m)) fs + others) := by
  unfold Counted at *
  cases hsteps with
  | claims session measured caller hlt =>
    simp only [bump_apply, tally_cons, tally_nil, job, ofPhase] at *
    split
    · rename_i heq
      subst heq
      omega
    · omega
  | exhaustedMain session measured hle | exhausted session measured hle
  | exhaustedLast session measured hle =>
    simp only [bump_apply, tally_cons, tally_nil, job] at *
    split
    · rename_i heq
      subst heq
      omega
    · omega
  | sendsMain session measured request | sends session measured done request =>
    obtain ⟨hsession, hmeasured⟩ := hformed
    rw [queued_send, hsession, hmeasured]
    simp only [tally_cons, tally_nil, job] at *
    omega
  | startsWarmup session response hrunning | startsMeasured session response recvTime hrunning =>
    have hphase := hfits session response rfl
    rw [hrunning] at hphase
    simp only [tally_cons, tally_nil, job, hphase] at *
    omega
  | completesWarmup | completesMeasured =>
    simp only [bump_apply, tally_cons, tally_nil, job, ofPhase] at *
    omega
  | _ =>
    simp only [tally_cons, tally_nil, job, Shared.setContext_requests,
      Shared.setContext_responses, Shared.setContext_next, Shared.setContext_completed] at *
    omega

theorem Shared.Arrived.counted {s s' : Shared} {event : Event} {fs : List Frame} {m : Bool}
    {jobs : Nat} (harrived : s.Arrived setup event s' fs) (h : Counted setup m s jobs) :
    Counted setup m s' (tally (Frame.job (ofPhase m)) fs + jobs) := by
  unfold Counted at *
  cases harrived with
  | start hstarted hpc =>
    simp only [tally_cons, tally_nil, Frame.job]
    omega
  | answer hrequest =>
    rw [queued_answer _ hrequest, tally_nil, Nat.zero_add]
    exact h
  | deliver hresponse =>
    have hqueued := queued_deliver (ofPhase m) s.requests hresponse
    simp only [tally_cons, tally_nil, Frame.job]
    omega

theorem start_of_warmup {tid session : Nat} {response : Request} {rest : List Frame}
    (hw : (system setup).Reach ok w)
    (hthread : w.threads[tid]? = some (.handler session (.start response) :: rest))
    (hrunning : w.shared.runningMeasured = false) : response.measured = false := by
  have hnone := not_inMeasured hw hrunning
  have hle : Frame.inMeasured (.handler session (.start response)) ≤ w.weigh Frame.inMeasured :=
    Stacks.weight_le_weigh hthread
  rw [Frame.inMeasured] at hle
  exact Bool.toNat_eq_zero.mp (by omega)

theorem counted_warmup (hw : (system setup).Reach ok w) :
    Counted setup false w.shared (w.weigh (Frame.job (ofPhase false))) := by
  apply step_focus (Frame.job (ofPhase false)) rfl ?_ ?_ hw
  · intro w tid f rest s' fs others hreach hthread hsteps ih
    refine hsteps.counted (formed_top hreach hthread) ?_ ih
    rintro session response rfl
    cases hrunning : w.shared.runningMeasured with
    | false => exact start_of_warmup hreach hthread hrunning
    | true =>
      have hdone := warmup_done hreach hrunning
      by_contra hphase
      rw [Bool.not_eq_true] at hphase
      simp only [Counted, Frame.job, ofPhase, hphase, if_true] at ih
      omega
  · intro w event s' fs _ harrived ih
    exact harrived.counted ih

theorem fits {tid : Nat} {f : Frame} {rest : List Frame} (hw : (system setup).Reach ok w)
    (hthread : w.threads[tid]? = some (f :: rest)) : f.Fits w.shared := by
  rintro session response rfl
  cases hrunning : w.shared.runningMeasured with
  | false => exact start_of_warmup hw hthread hrunning
  | true =>
    have hcounted := counted_warmup hw
    have hdone := warmup_done hw hrunning
    have hle : Frame.job (ofPhase false) (.handler session (.start response)) ≤
        w.weigh (Frame.job (ofPhase false)) := Stacks.weight_le_weigh hthread
    by_contra hphase
    rw [Bool.not_eq_true] at hphase
    simp only [Counted, Frame.job, ofPhase, hphase, if_true] at hcounted hle
    omega

theorem counted (m : Bool) (hw : (system setup).Reach ok w) :
    Counted setup m w.shared (w.weigh (Frame.job (ofPhase m))) := by
  apply step_focus (Frame.job (ofPhase m)) (J := Counted setup m) ?_ ?_ ?_ hw
  · exact (Nat.zero_min _).symm
  · intro w tid f rest s' fs others hreach hthread hsteps ih
    exact hsteps.counted (formed_top hreach hthread) (fits hreach hthread) ih
  · intro w event s' fs _ harrived ih
    exact harrived.counted ih

end FastPort.Benchmark.MultiSession
