import FastPort.Foundation.StepRules
import FastPort.Services.IOServiceLifecycle

/-! The stop of `IOService`. Behind `Stop` no worker is left and no consumer is called;
what had come into the port before has been handed on, and with every key posted neither
`Stop` nor `Wait` waits for ever. -/
namespace FastPort.Services.IOService

open FastPort.Foundation.Pool FastPort.Foundation.Stack FastPort.Foundation.StepRules
open FastPort.Foundation.Tally FastPort.Foundation.Threads FastPort.Foundation.Transition
open FastPort.Foundation.WaitSet

variable {ok : World → Label → Prop} {w w' : World}

def leaves (r : CompletionStatus) : Bool := turn r = .leave

def called (r : CompletionStatus) : Option Dispatch :=
  match turn r with
  | .leave => none
  | .next d => d

theorem leaves_iff {r : CompletionStatus} : leaves r = true ↔ turn r = .leave :=
  decide_eq_true_iff

theorem leaves_of_next {r : CompletionStatus} {d : Option Dispatch} (h : turn r = .next d) :
    leaves r = false := by
  simp [leaves, h]

theorem leaves_shutdownSignal : leaves shutdownSignal = true := by decide

def Frame.isOwner : Frame → Nat
  | start _ | stop _ => 1
  | _ => 0

def Frame.isWorker : Frame → Nat
  | worker _ _ => 1
  | _ => 0

def Frame.isThread (id : Nat) : Frame → Nat
  | worker i _ => if i = id then 1 else 0
  | _ => 0

def Frame.notifies : Frame → Nat
  | stop .notifyAll => 1
  | _ => 0

def Frame.calls (d : Dispatch) : Frame → Nat
  | worker _ (.onIOCompleted e) => if e = d then 1 else 0
  | _ => 0

theorem known : Known program Frame.Steps Shared.Arrived where
  exec choice s f := f.steps_exec choice s
  arrive := Shared.arrived

theorem thread_eq (id : Nat) (hw : system.Reach ok w) :
    w.shared.crew.apart id + w.weigh (Frame.isThread id) = w.shared.crew.given id := by
  apply known.balance (·.crew.apart id) (·.crew.given id) (Frame.isThread id) ?_ ?_ ?_ hw
  · rintro s rfl
    rfl
  · intro choice s f s' fs hsteps
    cases hsteps with
    | creates n =>
      have hcreate := s.crew.apart_create id
      simpa [Frame.isThread] using hcreate
    | leaves =>
      simp only [Crew.apart_leave, Crew.given_leave, tally_nil, Frame.isThread]
      omega
    | _ => simp [Frame.isThread, Shared.createCompletionPort, Shared.enqueue, Shared.dequeue,
        Nat.add_comm]
  · intro s event s' fs harrived
    cases harrived with
    | startWorker hunstarted =>
      have henter := Crew.apart_enter id hunstarted
      simp only [Crew.given_enter, tally_cons, tally_nil, Frame.isThread]
      omega
    | _ => simp [Frame.isThread, Shared.enqueue, Nat.add_comm]

theorem created_eq (hw : system.Reach ok w) :
    w.shared.crew.aside + w.weigh Frame.isWorker = w.shared.crew.created := by
  apply known.balance (·.crew.aside) (·.crew.created) Frame.isWorker ?_ ?_ ?_ hw
  · rintro s rfl
    rfl
  · intro choice s f s' fs hsteps
    cases hsteps with
    | creates n =>
      have hcreate := s.crew.aside_create
      simpa [Frame.isWorker] using hcreate
    | leaves =>
      simp only [Crew.aside_leave, Crew.created_leave, tally_nil, Frame.isWorker]
      omega
    | _ => simp [Frame.isWorker, Shared.createCompletionPort, Shared.enqueue, Shared.dequeue,
        Nat.add_comm]
  · intro s event s' fs harrived
    cases harrived with
    | startWorker hunstarted =>
      have henter := Crew.aside_enter hunstarted
      simp only [Crew.created_enter, tally_cons, tally_nil, Frame.isWorker]
      omega
    | _ => simp [Frame.isWorker, Shared.enqueue, Nat.add_comm]

theorem enqueued_eq (hw : system.Reach ok w) :
    w.shared.enqueued = w.shared.dequeued ++ w.shared.port := by
  apply known.holds (I := fun s => s.enqueued = s.dequeued ++ s.port) ?_ ?_ ?_ hw
  · rintro s rfl
    rfl
  · intro choice s f s' fs hsteps ih
    cases hsteps with
    | opens n => simp [Shared.createCompletionPort]
    | posts n => simp [Shared.enqueue, ih]
    | leaves hport | skips hport | takes hport => simp [Shared.dequeue, ih, hport]
    | _ => exact ih
  · intro s event s' fs harrived ih
    cases harrived with
    | completes r => simp [Shared.enqueue, ih]
    | _ => exact ih

theorem returned_eq (hw : system.Reach ok w) :
    w.shared.crew.returned.length = w.shared.dequeued.countP leaves := by
  apply known.holds (I := fun s => s.crew.returned.length = s.dequeued.countP leaves) ?_ ?_ ?_ hw
  · rintro s rfl
    rfl
  · intro choice s f s' fs hsteps ih
    cases hsteps with
    | leaves hport hturn => simp [Shared.dequeue, Crew.leave, ih, leaves_iff.mpr hturn]
    | skips hport hturn | takes hport hturn => simp [Shared.dequeue, ih, leaves_of_next hturn]
    | _ => exact ih
  · intro s event s' fs harrived ih
    cases harrived <;> exact ih

theorem owner_eq (hw : system.Reach ok w) : w.weigh Frame.isOwner = w.shared.busy.toNat := by
  apply known.flag (·.busy) Frame.isOwner ?_ ?_ ?_ hw
  · rintro s rfl
    rfl
  · intro choice s f s' fs hsteps hbusy
    cases hsteps with
    | fails | starts | notifies => simp [Frame.isOwner, hbusy Nat.one_pos]
    | _ => simp [Frame.isOwner, Shared.createCompletionPort, Shared.enqueue, Shared.dequeue,
        Nat.add_comm]
  · intro s event s' fs harrived
    cases harrived with
    | start n hidle | stop hidle => simp [Frame.isOwner, hidle]
    | _ => simp [Frame.isOwner, Shared.enqueue]

theorem owner_le_one (hw : system.Reach ok w) : w.weigh Frame.isOwner ≤ 1 := by
  rw [owner_eq hw]
  exact Bool.toNat_le _

theorem gone_of_returned (hw : system.Reach ok w)
    (hall : ∀ id < w.shared.crew.created, id ∈ w.shared.crew.returned) :
    w.shared.crew.unstarted = [] ∧ w.weigh Frame.isWorker = 0 := by
  obtain ⟨hunstarted, hnone⟩ := Crew.gone_of_returned _ (fun id => thread_eq id hw) hall
  refine ⟨hunstarted, Stacks.weigh_eq_zero.mpr fun stack hstack f hf => ?_⟩
  cases f with
  | worker id pc =>
    have hzero := Stacks.weigh_eq_zero.mp (hnone id) stack hstack _ hf
    simp [Frame.isThread] at hzero
  | _ => rfl

theorem created_of_returned (hw : system.Reach ok w)
    (hall : ∀ id < w.shared.crew.created, id ∈ w.shared.crew.returned) :
    w.shared.crew.created = w.shared.dequeued.countP leaves := by
  obtain ⟨hunstarted, hworkers⟩ := gone_of_returned hw hall
  have hcreated := created_eq hw
  rw [Crew.aside, hunstarted, hworkers] at hcreated
  rw [← returned_eq hw]
  exact hcreated.symm

def Shared.keys (s : Shared) : Nat := (s.dequeued ++ s.port).countP leaves

/-- What had come into the port before `Stop`, and has not ended a worker, has come out of
it when `Stop` has joined the workers. -/
def Drained (s : Shared) : Prop :=
  0 < s.joined → ∀ n, s.stoppedAt = some n →
    (∀ r ∈ (s.enqueued.take n).drop s.opened, turn r ≠ .leave) → n ≤ s.dequeued.length

structure Kept (s : Shared) : Prop where
  listed : s.crew.Listed s.workers
  keys : s.crew.created ≤ s.keys + s.workers.length
  opened : s.opened ≤ s.dequeued.length
  since : s.workers ≠ [] → (s.dequeued.take s.opened).countP leaves < s.crew.created
  stoppedAt : ∀ n, s.stoppedAt = some n → n ≤ s.enqueued.length
  unjoined : s.stoppedAt = none → s.joined = 0
  drained : Drained s

def Stage (s : Shared) : Frame → Prop
  | .start (.createCompletionPort _) =>
      Kept s ∧ s.workers = [] ∧ (s.stoppedAt ≠ none → s.terminated = true)
  | .start (.store _) | .start (.emplaceBack _) => Kept s ∧ s.stoppedAt = none
  | .stop (.post n) => Kept s ∧ s.stoppedAt ≠ none ∧ s.crew.created ≤ s.keys + n + s.refused
  | .stop (.join ids) => Kept s ∧ s.stoppedAt ≠ none ∧ s.crew.created ≤ s.keys + s.refused ∧
      s.crew.Joining s.workers ids
  | .stop .clear => Kept s ∧ s.stoppedAt ≠ none ∧ ∀ id ∈ s.workers, id ∈ s.crew.returned
  | .stop .store => Kept s ∧ s.workers = []
  | .stop .notifyAll => Kept s ∧ s.workers = [] ∧ s.terminated = true
  | _ => False

structure Idle (s : Shared) : Prop where
  kept : Kept s
  stopped : s.stoppedAt ≠ none → s.workers = [] ∧ s.terminated = true

structure Onward (s s' : Shared) : Prop where
  workers : s'.workers = s.workers
  crew : s.crew.Onward s'.crew
  terminated : s'.terminated = s.terminated
  opened : s'.opened = s.opened
  stoppedAt : s'.stoppedAt = s.stoppedAt
  joined : s'.joined = s.joined
  refused : s'.refused = s.refused
  enqueued : s.enqueued <+: s'.enqueued
  dequeued : s.dequeued <+: s'.dequeued
  keys : s.keys ≤ s'.keys

variable {s s' : Shared}

theorem Onward.refl (s : Shared) : Onward s s :=
  ⟨rfl, .refl s.crew, rfl, rfl, rfl, rfl, rfl, List.prefix_refl _, List.prefix_refl _,
    Nat.le_refl _⟩

theorem Onward.enter (s : Shared) (id : Nat) : Onward s { s with crew := s.crew.enter id } :=
  { Onward.refl s with crew := s.crew.onward_enter id }

theorem Shared.keys_enqueue (s : Shared) (r : CompletionStatus) :
    (s.enqueue r).keys = s.keys + (leaves r).toNat := by
  simp only [keys, enqueue, ← List.append_assoc, List.countP_append]
  cases hr : leaves r <;> simp [hr]

theorem Shared.keys_dequeue {r : CompletionStatus} {rest : List CompletionStatus}
    (h : s.port = r :: rest) : (s.dequeue r rest).keys = s.keys := by
  rw [keys, keys, dequeue, h, List.append_assoc, List.singleton_append]

theorem Onward.enqueue (s : Shared) (r : CompletionStatus) : Onward s (s.enqueue r) :=
  ⟨rfl, .refl s.crew, rfl, rfl, rfl, rfl, rfl, List.prefix_append _ _, List.prefix_refl _,
    by rw [s.keys_enqueue]; exact Nat.le_add_right _ _⟩

theorem Onward.dequeue {r : CompletionStatus} {rest : List CompletionStatus}
    (h : s.port = r :: rest) : Onward s (s.dequeue r rest) :=
  ⟨rfl, .refl s.crew, rfl, rfl, rfl, rfl, rfl, List.prefix_refl _, List.prefix_append _ _,
    Nat.le_of_eq (Shared.keys_dequeue h).symm⟩

theorem Frame.Steps.onward {choice : Choice} {f : Frame} {fs : List Frame}
    (h : f.Steps choice s s' fs) (hf : f.isOwner = 0) : Onward s s' := by
  cases h with
  | leaves hport hturn =>
    have hnext := Onward.dequeue hport
    exact { hnext with crew := s.crew.onward_leave _ }
  | skips hport hturn | takes hport hturn => exact .dequeue hport
  | dispatches d | waits hrunning | wakesSpuriously hspurious => exact { Onward.refl s with }
  | idles hempty | returns hterminated | wakes hgone | sleeps hwaits => exact .refl s
  | _ => cases hf

theorem Kept.onward (h : Kept s) (hs : Onward s s') : Kept s' where
  listed := by
    rw [hs.workers]
    exact h.listed.onward hs.crew
  keys := by
    have := h.keys
    have := hs.keys
    rw [hs.workers, hs.crew.created]
    omega
  opened := by
    rw [hs.opened]
    exact Nat.le_trans h.opened hs.dequeued.length_le
  since := by
    obtain ⟨more, hmore⟩ := hs.dequeued
    rw [hs.workers, hs.crew.created, hs.opened, ← hmore, List.take_append_of_le_length h.opened]
    exact h.since
  stoppedAt := by
    rw [hs.stoppedAt]
    exact fun n hn => Nat.le_trans (h.stoppedAt n hn) hs.enqueued.length_le
  unjoined := by
    rw [hs.stoppedAt, hs.joined]
    exact h.unjoined
  drained := by
    intro hjoined n hn hnone
    rw [hs.joined] at hjoined
    rw [hs.stoppedAt] at hn
    obtain ⟨more, hmore⟩ := hs.enqueued
    rw [← hmore, List.take_append_of_le_length (h.stoppedAt n hn), hs.opened] at hnone
    exact Nat.le_trans (h.drained hjoined n hn hnone) hs.dequeued.length_le

theorem Idle.onward (h : Idle s) (hs : Onward s s') : Idle s' where
  kept := h.kept.onward hs
  stopped := by
    rw [hs.stoppedAt, hs.workers, hs.terminated]
    exact h.stopped

theorem Stage.onward {f : Frame} (h : Stage s f) (hs : Onward s s') : Stage s' f := by
  have hkeys := hs.keys
  cases f with
  | start pc =>
    cases pc with
    | createCompletionPort n =>
      obtain ⟨hkept, hnone, hterminated⟩ := h
      refine ⟨hkept.onward hs, hs.workers ▸ hnone, ?_⟩
      rw [hs.stoppedAt, hs.terminated]
      exact hterminated
    | store n => exact ⟨h.1.onward hs, hs.stoppedAt ▸ h.2⟩
    | emplaceBack n => exact ⟨h.1.onward hs, hs.stoppedAt ▸ h.2⟩
  | stop pc =>
    cases pc with
    | post n =>
      obtain ⟨hkept, hstopped, hposted⟩ := h
      refine ⟨hkept.onward hs, hs.stoppedAt ▸ hstopped, ?_⟩
      rw [hs.crew.created, hs.refused]
      omega
    | join ids =>
      obtain ⟨hkept, hstopped, hposted, hjoining⟩ := h
      refine ⟨hkept.onward hs, hs.stoppedAt ▸ hstopped, ?_, ?_⟩
      · rw [hs.crew.created, hs.refused]
        omega
      · rw [hs.workers]
        exact hjoining.onward hs.crew
    | clear =>
      refine ⟨h.1.onward hs, hs.stoppedAt ▸ h.2.1, ?_⟩
      rw [hs.workers]
      exact fun id hid => hs.crew.returned id (h.2.2 id hid)
    | store => exact ⟨h.1.onward hs, hs.workers ▸ h.2⟩
    | notifyAll => exact ⟨h.1.onward hs, hs.workers ▸ h.2.1, hs.terminated ▸ h.2.2⟩
  | worker id pc => exact h.elim
  | wait pc => exact h.elim

/-- The threads that have been joined have left the port behind a result that came in after
the call of `Stop`. -/
theorem drained_of_returned (hw : system.Reach ok w) (h : Kept w.shared)
    (hall : ∀ id < w.shared.crew.created, id ∈ w.shared.crew.returned)
    (hsome : w.shared.workers ≠ []) {n : Nat}
    (hnone : ∀ r ∈ (w.shared.enqueued.take n).drop w.shared.opened, turn r ≠ .leave) :
    n ≤ w.shared.dequeued.length := by
  by_contra hlt
  have hsplit : w.shared.dequeued.countP leaves =
      (w.shared.dequeued.take w.shared.opened).countP leaves +
        (w.shared.dequeued.drop w.shared.opened).countP leaves := by
    rw [← List.countP_append, List.take_append_drop]
  rw [← created_of_returned hw hall] at hsplit
  have hsince := h.since hsome
  obtain ⟨r, hr, hleaves⟩ := List.countP_pos_iff.mp
    (show 0 < (w.shared.dequeued.drop w.shared.opened).countP leaves by omega)
  refine hnone r ?_ (leaves_iff.mp hleaves)
  rw [enqueued_eq hw, List.take_append, List.take_of_length_le (by omega),
    List.drop_append_of_le_length h.opened]
  exact List.mem_append_left _ hr

theorem Kept.createCompletionPort (hw : system.Reach ok w) (h : Kept w.shared)
    (hnone : w.shared.workers = []) : Kept w.shared.createCompletionPort where
  listed := h.listed
  keys := by
    have hcreated := created_of_returned hw (h.listed.returned (by simp [hnone]))
    simp only [Shared.keys, Shared.createCompletionPort, List.append_nil]
    omega
  opened := Nat.le_refl _
  since hsome := absurd hnone hsome
  stoppedAt n hn := by cases hn
  unjoined _ := rfl
  drained hjoined := absurd hjoined (Nat.lt_irrefl 0)

theorem Kept.creates (hw : system.Reach ok w) (h : Kept w.shared) : Kept { w.shared with
    workers := w.shared.workers ++ [w.shared.crew.created]
    crew := w.shared.crew.create } where
  listed := h.listed.create
  keys := by
    have := h.keys
    simp only [Shared.keys, Crew.create, List.length_append, List.length_singleton] at this ⊢
    omega
  opened := h.opened
  since _ := by
    have hcreated := created_eq hw
    have hreturned := returned_eq hw
    have hle : (w.shared.dequeued.take w.shared.opened).countP leaves ≤
        w.shared.dequeued.countP leaves := (List.take_sublist _ _).countP_le
    simp only [Crew.aside, Crew.create] at hcreated ⊢
    omega
  stoppedAt := h.stoppedAt
  unjoined := h.unjoined
  drained := h.drained

theorem Kept.clears (hw : system.Reach ok w) (h : Kept w.shared)
    (hstopped : w.shared.stoppedAt ≠ none) (hjoined : ∀ id ∈ w.shared.workers,
      id ∈ w.shared.crew.returned) : Kept { w.shared with
        workers := [], joined := w.shared.joined + w.shared.workers.length } := by
  have hall := h.listed.returned hjoined
  refine ⟨h.listed.clear hjoined, ?_, h.opened, fun hsome => absurd rfl hsome, h.stoppedAt,
    fun hnone => absurd hnone hstopped, ?_⟩
  · have hcreated := created_of_returned hw hall
    simp only [Shared.keys, List.countP_append]
    omega
  · intro hsome n hn hnone
    by_cases hworkers : w.shared.workers = []
    · rw [hworkers] at hsome
      exact h.drained hsome n hn hnone
    · exact drained_of_returned hw h hall hworkers hnone

theorem Frame.Steps.stage {choice : Choice} {f : Frame} {fs : List Frame}
    (hsteps : f.Steps choice w.shared s' fs) (hw : system.Reach ok w) (h : Stage w.shared f) :
    Stacks.Settled Frame.isOwner Stage Idle s' fs := by
  cases hsteps with
  | opens n => exact .cons ⟨h.1.createCompletionPort hw h.2.1, rfl⟩ Nat.one_pos rfl
  | fails n => exact .of_idle ⟨{ h.1 with }, fun hne => ⟨h.2.1, h.2.2 hne⟩⟩ rfl
  | resumes n => exact .cons ⟨{ h.1 with }, h.2⟩ Nat.one_pos rfl
  | starts => exact .of_idle ⟨{ h.1 with }, fun hne => absurd h.2 hne⟩ rfl
  | creates n => exact .cons ⟨h.1.creates hw, h.2⟩ Nat.one_pos rfl
  | posted =>
    obtain ⟨hkept, hstopped, hposted⟩ := h
    exact .cons ⟨hkept, hstopped, hposted, .begin _ _⟩ Nat.one_pos rfl
  | posts n =>
    obtain ⟨hkept, hstopped, hposted⟩ := h
    refine .cons ⟨hkept.onward (.enqueue _ _), hstopped, ?_⟩ Nat.one_pos rfl
    rw [Shared.keys_enqueue, leaves_shutdownSignal, Bool.toNat_true]
    simp only [Shared.enqueue]
    omega
  | refused n =>
    obtain ⟨hkept, hstopped, hposted⟩ := h
    refine .cons ⟨{ hkept with }, hstopped, ?_⟩ Nat.one_pos rfl
    simp only [Shared.keys] at hposted ⊢
    omega
  | joined =>
    obtain ⟨hkept, hstopped, -, hjoining⟩ := h
    exact .cons ⟨hkept, hstopped, hjoining.done⟩ Nat.one_pos rfl
  | joins hreturned =>
    obtain ⟨hkept, hstopped, hposted, hjoining⟩ := h
    exact .cons ⟨hkept, hstopped, hposted, hjoining.next hreturned⟩ Nat.one_pos rfl
  | blocked hrunning => exact .cons h Nat.one_pos rfl
  | clears => exact .cons ⟨h.1.clears hw h.2.1 h.2.2, rfl⟩ Nat.one_pos rfl
  | terminates => exact .cons ⟨{ h.1 with }, h.2, rfl⟩ Nat.one_pos rfl
  | notifies => exact .of_idle ⟨{ h.1 with }, fun _ => h.2⟩ rfl
  | _ => exact h.elim

theorem Kept.stops (h : Kept s) : Kept { s with
    busy := true, stoppedAt := s.stoppedAt.or (some s.enqueued.length) } where
  listed := h.listed
  keys := h.keys
  opened := h.opened
  since := h.since
  stoppedAt n hn := by
    cases hstopped : s.stoppedAt with
    | none =>
      simp only [hstopped, Option.none_or, Option.some.injEq] at hn
      exact Nat.le_of_eq hn.symm
    | some m =>
      simp only [hstopped, Option.some_or, Option.some.injEq] at hn
      exact h.stoppedAt n (hn ▸ hstopped)
  unjoined hnone := by simp at hnone
  drained hjoined n hn := by
    cases hstopped : s.stoppedAt with
    | none => exact absurd (h.unjoined hstopped) (Nat.ne_of_gt hjoined)
    | some m =>
      simp only [hstopped, Option.some_or, Option.some.injEq] at hn
      exact h.drained hjoined n (hn ▸ hstopped)

theorem Idle.arrives {event : Event} {fs : List Frame} (harrived : s.Arrived event s' fs)
    (h : Idle s) : Stacks.Settled Frame.isOwner Stage Idle s' fs := by
  cases harrived with
  | start n hidle hnone =>
    exact .cons ⟨{ h.kept with }, hnone, fun hne => (h.stopped hne).2⟩ Nat.one_pos rfl
  | stop hidle =>
    have hkeys : s.crew.created ≤ s.keys + s.workers.length + s.refused :=
      Nat.le_add_right_of_le h.kept.keys
    exact .cons ⟨h.kept.stops, by simp, hkeys⟩ Nat.one_pos rfl
  | wait => exact .of_idle h rfl
  | completes r => exact .of_idle (h.onward (.enqueue _ _)) rfl
  | startWorker hunstarted => exact .of_idle (h.onward (.enter s _)) rfl

theorem Shared.Arrived.onward {event : Event} {fs : List Frame}
    (harrived : s.Arrived event s' fs) (hbusy : s.busy ≠ false) : Onward s s' := by
  cases harrived with
  | start n hidle | stop hidle => exact absurd hidle hbusy
  | wait => exact .refl s
  | completes r => exact .enqueue s r
  | startWorker => exact .enter s _

theorem kept_initial : Kept .initial where
  listed := Crew.listed_initial
  keys := Nat.zero_le _
  opened := Nat.le_refl 0
  since hsome := absurd rfl hsome
  stoppedAt n hn := by cases hn
  unjoined _ := rfl
  drained hjoined := absurd hjoined (Nat.lt_irrefl 0)

theorem staged (hw : system.Reach ok w) : Stacks.Staged Frame.isOwner Stage Idle w := by
  apply known.staged owner_le_one ?_ ?_ ?_ ?_ hw
  · rintro s rfl
    exact ⟨kept_initial, fun hne => absurd rfl hne⟩
  · intro w choice f s' fs hreach hsteps _ h
    exact hsteps.stage hreach h
  · intro w tid choice f rest s' fs _ _ hsteps hzero
    have hon := hsteps.onward hzero
    refine ⟨fun g _ h => h.onward hon, fun h => .of_idle (h.onward hon) ?_⟩
    cases hsteps with
    | _ => first | rfl | cases hzero
  · intro w event s' fs hreach _ harrived
    refine ⟨fun hpos g _ h => h.onward (harrived.onward fun hidle => ?_),
      fun _ h => h.arrives harrived⟩
    rw [owner_eq hreach, hidle] at hpos
    cases hpos

end FastPort.Services.IOService
