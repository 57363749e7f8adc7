import FastPort.Foundation.StepRules
import FastPort.Services.RIOService
import Mathlib.Data.List.Nodup

/-! The workers of `RIOService` and its stop. The dequeue is never entered by two threads,
each result goes to one worker, which hands on its results in order, and the queue is closed
behind the last worker. Once `Stop` has been called the service comes to rest, and at rest
`Stop` has returned. -/
namespace FastPort.Services.RIOService

open FastPort.Foundation.Pool FastPort.Foundation.Stack FastPort.Foundation.StepRules
open FastPort.Foundation.Tally FastPort.Foundation.Threads FastPort.Foundation.Transition

variable {ok : World → Label → Prop} {w w' : World} {s s' : Shared} {choice : Choice} {f : Frame}
variable {fs : List Frame} {event : Event}

def Frame.isOwner : Frame → Nat
  | worker _ _ => 0
  | _ => 1

def Frame.isStart : Frame → Nat
  | start _ => 1
  | _ => 0

def Frame.isThread (id : Nat) : Frame → Nat
  | worker i _ => if i = id then 1 else 0
  | _ => 0

def Frame.dequeues : Frame → Nat
  | worker _ .dequeueCompletion | worker _ (.unlock _) => 1
  | _ => 0

/-- What the worker is still to hand on of what it has taken. -/
def WorkerPc.pending : WorkerPc → List Completion
  | unlock (some results) => results.filterMap processResult
  | processResults results => results.filterMap processResult
  | onRioIOCompleted call results => call :: results.filterMap processResult
  | _ => []

/-- The calls that the results of a worker are to lead to. -/
def Shared.due (s : Shared) (id : Nat) : List Completion :=
  ((s.taken.filter (·.1 = id)).map Prod.snd).filterMap processResult

def Shared.made (s : Shared) (id : Nat) : List Completion :=
  (s.handled.filter (·.1 = id)).map Prod.snd

theorem Shared.queue_of_dequeue {results : List RIORESULT}
    (h : s.rioDequeueCompletion choice = some results) :
    results ++ s.queue.drop results.length = s.queue := by
  obtain ⟨-, heq⟩ := Option.ite_none_left_eq_some.mp h
  obtain rfl := Option.some.inj heq
  exact List.prefix_iff_eq_append.mp (List.take_prefix _ _)

theorem known : Known program Frame.Steps Shared.Arrived where
  exec choice s f := f.steps_exec choice s
  arrive := Shared.arrived

theorem owner_eq (hw : system.Reach ok w) : w.weigh Frame.isOwner = w.shared.busy.toNat := by
  apply known.flag (·.busy) Frame.isOwner ?_ ?_ ?_ hw
  · rintro s rfl
    rfl
  · intro choice s f s' fs hsteps hbusy
    cases hsteps with
    | ignores | opens | fails | alreadyStarted | started | alreadyStopped | nothingToClose
    | closes => simp [Frame.isOwner, hbusy Nat.one_pos]
    | _ => simp [Frame.isOwner, Shared.take, Nat.add_comm]
  · intro s event s' fs harrived
    cases harrived with
    | initializeQueue hidle | start n hidle | stop hidle => simp [Frame.isOwner, hidle]
    | _ => simp [Frame.isOwner]

theorem dequeues_eq (hw : system.Reach ok w) :
    w.weigh Frame.dequeues = w.shared.locked.toNat := by
  apply known.flag (·.locked) Frame.dequeues ?_ ?_ ?_ hw
  · rintro s rfl
    rfl
  · intro choice s f s' fs hsteps hlocked
    cases hsteps with
    | breaks | unlocks => simp [Frame.dequeues, hlocked Nat.one_pos]
    | locks hfree => simp [Frame.dequeues, hfree]
    | _ => simp [Frame.dequeues, Shared.take, Shared.rioCreateCompletionQueue,
        Shared.rioCloseCompletionQueue, Nat.add_comm]
  · intro s event s' fs harrived
    cases harrived <;> simp [Frame.dequeues]

theorem thread_eq (id : Nat) (hw : system.Reach ok w) :
    w.shared.crew.apart id + w.weigh (Frame.isThread id) = w.shared.crew.given id := by
  apply known.balance (·.crew.apart id) (·.crew.given id) (Frame.isThread id) ?_ ?_ ?_ hw
  · rintro s rfl
    rfl
  · intro choice s f s' fs hsteps
    cases hsteps with
    | creates n =>
      have hcreate := s.crew.apart_create id
      simpa [Frame.isThread] using hcreate
    | leaves | breaks =>
      simp only [Crew.apart_leave, Crew.given_leave, tally_nil, Frame.isThread]
      omega
    | _ => simp [Frame.isThread, Shared.take, Shared.rioCreateCompletionQueue,
        Shared.rioCloseCompletionQueue, Nat.add_comm]
  · intro s event s' fs harrived
    cases harrived with
    | startWorker hunstarted =>
      have henter := Crew.apart_enter id hunstarted
      simp only [Crew.given_enter, tally_cons, tally_nil, Frame.isThread]
      omega
    | _ => simp [Frame.isThread, Nat.add_comm]

theorem fifo (hw : system.Reach ok w) :
    w.shared.enqueued = w.shared.taken.map Prod.snd ++ w.shared.queue := by
  apply known.holds (I := fun s => s.enqueued = s.taken.map Prod.snd ++ s.queue) ?_ ?_ ?_ hw
  · rintro s rfl
    rfl
  · intro choice s f s' fs hsteps ih
    cases hsteps with
    | opens => simp [Shared.rioCreateCompletionQueue]
    | closes hcq => simp [Shared.rioCloseCompletionQueue]
    | takes htakes =>
      simp [Shared.take, ih, Function.comp_def, Shared.queue_of_dequeue htakes]
    | _ => exact ih
  · intro s event s' fs harrived ih
    cases harrived with
    | completes result => simp [ih]
    | _ => exact ih

structure Kept (s : Shared) : Prop where
  listed : s.crew.Listed s.workers
  opened : s.workers ≠ [] → s.cq ≠ none
  tracked : ∀ q < s.queues, s.cq = some q ∨ q ∈ s.closed

structure Idle (s : Shared) : Prop where
  kept : Kept s
  stopped : s.isRunning = false → s.workers = []
  started : s.isRunning = true → s.cq ≠ none
  unused : s.isRunning = false → s.cq ≠ none → s.used = false

def Stage (s : Shared) : Frame → Prop
  | .initializeQueue .check => Idle s
  | .initializeQueue .createCompletionQueue => Idle s ∧ s.cq = none
  | .start (.exchange _) => Idle s ∧ s.cq ≠ none
  | .start (.emplaceBack _) => Kept s ∧ s.isRunning = true ∧ s.cq ≠ none
  | .stop .exchange => Idle s
  | .stop (.join ids) => Kept s ∧ s.isRunning = false ∧ s.crew.Joining s.workers ids
  | .stop .clear => Kept s ∧ s.isRunning = false ∧ ∀ id ∈ s.workers, id ∈ s.crew.returned
  | .stop .closeCompletionQueue => Kept s ∧ s.isRunning = false ∧ s.workers = []
  | .worker _ _ => False

structure Onward (s s' : Shared) : Prop where
  workers : s'.workers = s.workers
  crew : s.crew.Onward s'.crew
  isRunning : s'.isRunning = s.isRunning
  cq : s'.cq = s.cq
  used : s'.used = s.used
  queues : s'.queues = s.queues
  closed : s'.closed = s.closed

theorem Onward.refl (s : Shared) : Onward s s :=
  ⟨rfl, .refl s.crew, rfl, rfl, rfl, rfl, rfl⟩

theorem Onward.leave (s : Shared) (id : Nat) (locked : Bool) :
    Onward s { s with locked := locked, crew := s.crew.leave id } :=
  { Onward.refl s with crew := s.crew.onward_leave id }

theorem Onward.enter (s : Shared) (id : Nat) :
    Onward s { s with crew := s.crew.enter id } :=
  { Onward.refl s with crew := s.crew.onward_enter id }

theorem Frame.Steps.onward (h : f.Steps choice s s' fs) (hf : f.isOwner = 0) : Onward s s' := by
  cases h with
  | leaves | breaks => exact .leave s _ _
  | locks | takes | unlocks | handles => exact { Onward.refl s with }
  | goesOn | waits | corrupt | turns | skips | calls => exact .refl s
  | _ => cases hf

theorem Kept.onward (h : Kept s) (hs : Onward s s') : Kept s' where
  listed := by
    rw [hs.workers]
    exact h.listed.onward hs.crew
  opened := by
    rw [hs.workers, hs.cq]
    exact h.opened
  tracked := by
    rw [hs.queues, hs.cq, hs.closed]
    exact h.tracked

theorem Idle.onward (h : Idle s) (hs : Onward s s') : Idle s' where
  kept := h.kept.onward hs
  stopped := by
    rw [hs.isRunning, hs.workers]
    exact h.stopped
  started := by
    rw [hs.isRunning, hs.cq]
    exact h.started
  unused := by
    rw [hs.isRunning, hs.cq, hs.used]
    exact h.unused

theorem Stage.onward (h : Stage s f) (hs : Onward s s') : Stage s' f := by
  cases f with
  | initializeQueue pc =>
    cases pc with
    | check => exact Idle.onward h hs
    | createCompletionQueue => exact ⟨h.1.onward hs, hs.cq.trans h.2⟩
  | start pc =>
    cases pc with
    | exchange n => exact ⟨h.1.onward hs, hs.cq ▸ h.2⟩
    | emplaceBack n => exact ⟨h.1.onward hs, hs.isRunning.trans h.2.1, hs.cq ▸ h.2.2⟩
  | stop pc =>
    cases pc with
    | exchange => exact Idle.onward h hs
    | join ids =>
      obtain ⟨hkept, hstopped, hjoining⟩ := h
      refine ⟨hkept.onward hs, hs.isRunning.trans hstopped, ?_⟩
      rw [hs.workers]
      exact hjoining.onward hs.crew
    | clear =>
      refine ⟨h.1.onward hs, hs.isRunning.trans h.2.1, ?_⟩
      rw [hs.workers]
      exact fun id hid => hs.crew.returned id (h.2.2 id hid)
    | closeCompletionQueue =>
      exact ⟨h.1.onward hs, hs.isRunning.trans h.2.1, hs.workers.trans h.2.2⟩
  | worker id pc => exact h.elim

theorem Kept.creates (h : Kept s) (hcq : s.cq ≠ none) : Kept { s with
    workers := s.workers ++ [s.crew.created], crew := s.crew.create } where
  listed := h.listed.create
  opened _ := hcq
  tracked := h.tracked

theorem Frame.Steps.stage (hsteps : f.Steps choice s s' fs) (hpos : 0 < f.isOwner)
    (h : Stage s f) : Stacks.Settled Frame.isOwner Stage Idle s' fs := by
  cases hsteps with
  | ignores => exact .of_idle { h with kept := { h.kept with } } rfl
  | initializes hcq => exact .cons ⟨h, hcq⟩ Nat.one_pos rfl
  | opens =>
    obtain ⟨hidle, hcq⟩ := h
    refine .of_idle ⟨⟨hidle.kept.listed, ?_, fun q hq => ?_⟩, hidle.stopped,
      ?_, fun _ _ => rfl⟩ rfl
    · exact fun _ hnone => by cases hnone
    · rcases Nat.lt_succ_iff_lt_or_eq.mp hq with hlt | rfl
      · refine .inr ((hidle.kept.tracked q hlt).resolve_left ?_)
        simp [hcq]
      · exact .inl rfl
    · exact fun _ hnone => by cases hnone
  | fails => exact .of_idle { h.1 with kept := { h.1.kept with } } rfl
  | alreadyStarted n hrunning => exact .of_idle { h.1 with kept := { h.1.kept with } } rfl
  | starts n hstopped => exact .cons ⟨{ h.1.kept with }, rfl, h.2⟩ Nat.one_pos rfl
  | started =>
    obtain ⟨hkept, hrunning, hcq⟩ := h
    refine .of_idle ⟨{ hkept with }, fun hstopped => ?_, fun _ => hcq, fun hstopped => ?_⟩ rfl
    · exact absurd (hrunning.symm.trans hstopped) (by decide)
    · exact absurd (hrunning.symm.trans hstopped) (by decide)
  | creates n => exact .cons ⟨h.1.creates h.2.2, h.2⟩ Nat.one_pos rfl
  | alreadyStopped hstopped => exact .of_idle { h with kept := { h.kept with } } rfl
  | stops hrunning =>
    exact .cons ⟨{ h.kept with }, rfl, .begin _ _⟩ Nat.one_pos rfl
  | joined => exact .cons ⟨h.1, h.2.1, h.2.2.done⟩ Nat.one_pos rfl
  | joins hreturned => exact .cons ⟨h.1, h.2.1, h.2.2.next hreturned⟩ Nat.one_pos rfl
  | blocked hrunning => exact .cons h Nat.one_pos rfl
  | clears =>
    obtain ⟨hkept, hstopped, hjoined⟩ := h
    exact .cons ⟨⟨hkept.listed.clear hjoined, fun hsome => absurd rfl hsome, hkept.tracked⟩,
      hstopped, rfl⟩ Nat.one_pos rfl
  | nothingToClose hcq =>
    obtain ⟨hkept, hstopped, hnone⟩ := h
    refine .of_idle ⟨{ hkept with }, fun _ => hnone, fun hrunning => ?_, fun _ hsome => ?_⟩ rfl
    · exact absurd (hstopped.symm.trans hrunning) (by decide)
    · exact absurd hcq hsome
  | closes hcq =>
    obtain ⟨hkept, hstopped, hnone⟩ := h
    refine .of_idle ⟨⟨hkept.listed, ?_, fun q hq => .inr ?_⟩, fun _ => hnone,
      fun hrunning => ?_, ?_⟩ rfl
    · exact fun hsome => absurd hnone hsome
    · rcases hkept.tracked q hq with hcurrent | hclosed
      · obtain rfl := Option.some.inj (hcq.symm.trans hcurrent)
        exact List.mem_append_right _ (List.mem_singleton_self _)
      · exact List.mem_append_left _ hclosed
    · exact absurd (hstopped.symm.trans hrunning) (by decide)
    · exact fun _ hsome => absurd rfl hsome
  | _ => cases hpos

theorem Idle.arrives (harrived : s.Arrived event s' fs)
    (hstarts : ∀ n, event = .start n → s.cq ≠ none) (h : Idle s) :
    Stacks.Settled Frame.isOwner Stage Idle s' fs := by
  cases harrived with
  | initializeQueue => exact .cons { h with kept := { h.kept with } } Nat.one_pos rfl
  | start n =>
    exact .cons ⟨{ h with kept := { h.kept with } }, hstarts n rfl⟩ Nat.one_pos rfl
  | stop => exact .cons { h with kept := { h.kept with } } Nat.one_pos rfl
  | completes => exact .of_idle { h with kept := { h.kept with } } rfl
  | startWorker => exact .of_idle (h.onward (.enter s _)) rfl

theorem Shared.Arrived.onward (harrived : s.Arrived event s' fs) (hbusy : s.busy ≠ false) :
    Onward s s' := by
  cases harrived with
  | initializeQueue hidle | start _ hidle | stop hidle => exact absurd hidle hbusy
  | completes => exact { Onward.refl s with }
  | startWorker => exact .enter s _

theorem idle_initial : Idle .initial where
  kept := ⟨Crew.listed_initial, fun hsome => absurd rfl hsome,
    fun q hq => absurd hq (Nat.not_lt_zero q)⟩
  stopped _ := rfl
  started hrunning := by cases hrunning
  unused _ _ := rfl

theorem staged (hw : system.Reach StartsInitialized w) :
    Stacks.Staged Frame.isOwner Stage Idle w := by
  apply known.staged ?_ ?_ ?_ ?_ ?_ hw
  · intro w hw
    have hle := Bool.toNat_le w.shared.busy
    rwa [← owner_eq hw] at hle
  · rintro s rfl
    exact idle_initial
  · intro w choice f s' fs _ hsteps hpos h
    exact hsteps.stage hpos h
  · intro w tid choice f rest s' fs _ _ hsteps hzero
    have hon := hsteps.onward hzero
    refine ⟨fun g _ h => h.onward hon, fun h => .of_idle (h.onward hon) ?_⟩
    cases hsteps with
    | _ => first | rfl | cases hzero
  · intro w event s' fs hreach hok harrived
    refine ⟨fun hpos g _ h => h.onward (harrived.onward fun hidle => ?_),
      fun _ h => h.arrives harrived fun n hevent => ?_⟩
    · rw [owner_eq hreach, hidle] at hpos
      cases hpos
    · subst hevent
      exact hok

def InTurn (id : Nat) (s : Shared) : Frame → Prop
  | .worker _ pc => s.made id ++ pc.pending = s.due id
  | _ => False

theorem InTurn.congr {id : Nat} (h : InTurn id s f) (hmade : s'.made id = s.made id)
    (hdue : s'.due id = s.due id) : InTurn id s' f := by
  cases f with
  | worker i pc =>
    rw [InTurn, hmade, hdue]
    exact h
  | _ => exact h.elim

theorem Shared.due_take (s : Shared) (id : Nat) (results : List RIORESULT) :
    (s.take id results).due id = s.due id ++ results.filterMap processResult := by
  have hall : (results.map (Prod.mk id)).filter (·.1 = id) = results.map (Prod.mk id) := by
    simp
  simp [due, take, Function.comp_def, hall]

theorem Shared.due_take_of_ne {i id : Nat} (hne : i ≠ id) (s : Shared)
    (results : List RIORESULT) : (s.take i results).due id = s.due id := by
  simp [due, take, hne]

theorem Shared.made_of_ne {i id : Nat} (hne : i ≠ id) (s : Shared) (call : Completion) :
    Shared.made { s with handled := s.handled ++ [(i, call)] } id = s.made id := by
  simp [made, hne]

theorem Shared.made_append (s : Shared) (id : Nat) (call : Completion) :
    Shared.made { s with handled := s.handled ++ [(id, call)] } id = s.made id ++ [call] := by
  simp [made]

theorem Frame.Steps.inTurn {id : Nat} (hsteps : f.Steps choice s s' fs)
    (hpos : 0 < f.isThread id) (h : InTurn id s f) : Stacks.Settled (Frame.isThread id)
      (InTurn id) (fun s => s.made id = s.due id) s' fs := by
  cases f with
  | worker i pc =>
    obtain rfl : i = id := by
      by_contra hne
      rw [isThread, if_neg hne] at hpos
      cases hpos
    have hone : 0 < Frame.isThread i (.worker i pc) := hpos
    cases hsteps with
    | leaves | breaks =>
      simp only [InTurn, WorkerPc.pending, List.append_nil] at h
      exact .of_idle h rfl
    | takes htakes =>
      refine .cons ?_ hone rfl
      simp only [InTurn, WorkerPc.pending, List.append_nil] at h
      simp only [InTurn, WorkerPc.pending, s.due_take, ← h]
      rfl
    | calls results hsome =>
      refine .cons ?_ hone rfl
      simpa [InTurn, WorkerPc.pending, hsome] using h
    | skips results hnone =>
      refine .cons ?_ hone rfl
      simpa [InTurn, WorkerPc.pending, hnone] using h
    | handles call results =>
      refine .cons ?_ hone rfl
      simp only [InTurn, WorkerPc.pending, s.made_append, List.append_assoc] at h ⊢
      exact h
    | _ => exact .cons h hone rfl
  | _ => exact h.elim

theorem Frame.Steps.made_due {id : Nat} (hsteps : f.Steps choice s s' fs)
    (hzero : f.isThread id = 0) : s'.made id = s.made id ∧ s'.due id = s.due id := by
  cases f with
  | worker i pc =>
    have hne : i ≠ id := by
      intro heq
      rw [isThread, if_pos heq] at hzero
      cases hzero
    cases hsteps with
    | takes htakes => exact ⟨rfl, s.due_take_of_ne hne _⟩
    | handles call results => exact ⟨s.made_of_ne hne call, rfl⟩
    | _ => exact ⟨rfl, rfl⟩
  | _ => cases hsteps <;> exact ⟨rfl, rfl⟩

theorem Frame.Steps.isThread_eq_zero {id : Nat} (hsteps : f.Steps choice s s' fs)
    (hzero : f.isThread id = 0) : tally (Frame.isThread id) fs = 0 := by
  cases f with
  | worker i pc => cases hsteps <;> first | rfl | exact hzero
  | _ => cases hsteps <;> rfl

theorem inTurn (id : Nat) (hw : system.Reach ok w) : Stacks.Staged (Frame.isThread id)
    (InTurn id) (fun s => s.made id = s.due id) w := by
  apply known.staged ?_ ?_ ?_ ?_ ?_ hw
  · intro w hw
    have heq := thread_eq id hw
    have hle := w.shared.crew.given_le_one id
    omega
  · rintro s rfl
    rfl
  · intro w choice f s' fs _ hsteps hpos h
    exact hsteps.inTurn hpos h
  · intro w tid choice f rest s' fs _ _ hsteps hzero
    obtain ⟨hmade, hdue⟩ := hsteps.made_due hzero
    exact ⟨fun g _ h => h.congr hmade hdue, fun h =>
      .of_idle (hmade.trans (h.trans hdue.symm)) (hsteps.isThread_eq_zero hzero)⟩
  · intro w event s' fs _ _ harrived
    obtain ⟨hmade, hdue⟩ : s'.made id = w.shared.made id ∧ s'.due id = w.shared.due id := by
      cases harrived <;> exact ⟨rfl, rfl⟩
    refine ⟨fun _ g _ h => h.congr hmade hdue, fun _ h => ?_⟩
    have hidle : s'.made id = s'.due id := hmade.trans (h.trans hdue.symm)
    cases harrived with
    | @startWorker i hunstarted =>
      rcases eq_or_ne i id with rfl | hne
      · have hpos : 0 < Frame.isThread i (.worker i .running) := by simp [Frame.isThread]
        refine .cons ?_ hpos rfl
        simpa [InTurn, WorkerPc.pending] using hidle
      · exact .of_idle hidle (by simp [Frame.isThread, hne])
    | _ => exact .of_idle hidle rfl

structure Accounted (s : Shared) : Prop where
  known : ∀ q ∈ s.closed, q < s.queues
  current : ∀ q, s.cq = some q → q < s.queues ∧ q ∉ s.closed
  nodup : s.closed.Nodup

theorem accounted (hw : system.Reach ok w) : Accounted w.shared := by
  apply known.holds (I := Accounted) ?_ ?_ ?_ hw
  · rintro s rfl
    exact ⟨by simp [Shared.initial], by simp [Shared.initial], .nil⟩
  · intro choice s f s' fs hsteps ih
    cases hsteps with
    | opens =>
      refine ⟨fun q hq => Nat.lt_succ_of_lt (ih.known q hq), fun q hq => ?_, ih.nodup⟩
      obtain rfl := Option.some.inj hq
      exact ⟨Nat.lt_succ_self _, fun hclosed => Nat.lt_irrefl _ (ih.known _ hclosed)⟩
    | @closes q hcq =>
      obtain ⟨hlt, hopen⟩ := ih.current q hcq
      refine ⟨fun q' hq' => ?_, fun q' hq' => ?_, ?_⟩
      · rcases List.mem_append.mp hq' with hq' | hq'
        · exact ih.known q' hq'
        · obtain rfl := List.mem_singleton.mp hq'
          exact hlt
      · cases hq'
      · exact List.nodup_append'.mpr ⟨ih.nodup, List.nodup_singleton q,
          List.disjoint_singleton.mpr hopen⟩
    | _ => exact { ih with }
  · intro s event s' fs harrived ih
    cases harrived <;> exact { ih with }

end FastPort.Services.RIOService
