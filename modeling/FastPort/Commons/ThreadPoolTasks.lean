import FastPort.Commons.ThreadPool

/-! What becomes of the tasks: they are dequeued in the order in which they were enqueued,
each once; nobody waits for ever while there is one; and the workers return only after the
last of those that `Stop` found. -/
namespace FastPort.Commons.ThreadPool

open FastPort.Foundation.Pool FastPort.Foundation.Stack FastPort.Foundation.Tally
open FastPort.Foundation.Transition FastPort.Foundation.WaitSet

variable {numThreads : Nat} {ok : World → Label → Prop} {w : World}

namespace Frame

def isWorker : Frame → Nat
  | workerThread _ => 1
  | _ => 0

def waitsWith (ticket : Nat) : Frame → Nat
  | workerThread (.waiting t) => if t = ticket then 1 else 0
  | _ => 0

def isAwake (waiters : List Nat) : Frame → Nat
  | workerThread (.waiting t) => if t ∈ waiters then 0 else 1
  | workerThread _ => 1
  | _ => 0

def notifies : Frame → Nat
  | enqueue _ .notifyOne => 1
  | stop .notifyAll => 1
  | _ => 0

def attends (waiters : List Nat) (f : Frame) : Nat := notifies f + isAwake waiters f

def notifiesAll : Frame → Nat
  | stop .notifyAll => 1
  | _ => 0

def runs (name : Nat) : Frame → Nat
  | workerThread (.task task) => if task = some name then 1 else 0
  | _ => 0

theorem isAwake_le_isWorker (waiters : List Nat) (f : Frame) :
    isAwake waiters f ≤ isWorker f := by
  cases f with
  | workerThread pc =>
    cases pc with
    | waiting t =>
      simp only [isAwake, isWorker]
      split <;> omega
    | _ => exact Nat.le_refl _
  | _ => exact Nat.le_refl _

theorem isAwake_nil : isAwake [] = isWorker := by
  funext f
  cases f with
  | workerThread pc => cases pc <;> rfl
  | _ => rfl

theorem isAwake_mono {waiters waiters' : List Nat} (hsub : ∀ t ∈ waiters', t ∈ waiters)
    (f : Frame) : isAwake waiters f ≤ isAwake waiters' f := by
  cases f with
  | workerThread pc =>
    cases pc with
    | waiting t =>
      simp only [isAwake]
      split
      · exact Nat.zero_le _
      · rename_i hgone
        exact Nat.le_of_eq (if_neg fun hmem => hgone (hsub t hmem)).symm
    | _ => exact Nat.le_refl _
  | _ => exact Nat.le_refl _

theorem waitsWith_le_isAwake {waiters : List Nat} {ticket : Nat} (hgone : ticket ∉ waiters)
    (f : Frame) : waitsWith ticket f ≤ isAwake waiters f := by
  cases f with
  | workerThread pc =>
    cases pc with
    | waiting t =>
      simp only [waitsWith, isAwake]
      split
      · rename_i heq
        rw [heq]
        exact Nat.le_of_eq (if_neg hgone).symm
      · exact Nat.zero_le _
    | _ => exact Nat.zero_le _
  | _ => exact Nat.zero_le _

end Frame

theorem shared_invariant {I : Shared → Prop} (hinit : I (Shared.initial numThreads))
    (hexec : ∀ choice s f s' fs, Frame.Steps choice s f s' fs → I s → I s')
    (harrive : ∀ s event s' fs, s.Arrived event s' fs → I s → I s')
    (hw : (system numThreads).Reach ok w) : I w.shared := by
  apply Program.invariant_shared (p := program numThreads) ?_ ?_ ?_ hw
  · rintro s rfl
    exact hinit
  · intro choice s f ih
    exact hexec choice s f _ _ (f.steps_exec choice s) ih
  · intro event s s' fs ih harrived
    exact harrive s event s' fs (Shared.arrived harrived) ih

/-- The queue between what was enqueued and what was dequeued, and where `Stop` came in. -/
structure Ordered (s : Shared) : Prop where
  notRequested : s.stopRequested = false
  fifo : s.enqueued = s.dequeued ++ s.taskQueue
  stopped : s.stopped = s.stoppedAt.isSome
  returned : 0 < s.exited → ∃ n, s.stoppedAt = some n ∧ n ≤ s.dequeued.length
  bounded : ∀ n, s.stoppedAt = some n → n ≤ s.enqueued.length

theorem Ordered.steps {choice : Choice} {s s' : Shared} {f : Frame} {fs : List Frame}
    (h : Ordered s) (hsteps : f.Steps choice s s' fs) : Ordered s' := by
  cases hsteps with
  | emplace task =>
    refine ⟨h.notRequested, ?_, h.stopped, h.returned, ?_⟩
    · simp only [h.fifo, List.append_assoc]
    · intro n hn
      have hle := h.bounded n hn
      simp only [List.length_append]
      omega
  | stops hrunning =>
    have hnone : s.stoppedAt = none := by
      rw [← Option.not_isSome_iff_eq_none, ← h.stopped, hrunning]
      exact Bool.false_ne_true
    refine ⟨h.notRequested, h.fifo, rfl, fun hpos => ?_, ?_⟩
    · obtain ⟨n, hn, -⟩ := h.returned hpos
      rw [hnone] at hn
      cases hn
    · rintro n ⟨⟩
      exact Nat.le_refl _
  | returns hstop hempty =>
    have hstopped : s.stopped = true := hstop.resolve_right (by rw [h.notRequested]; simp)
    refine ⟨h.notRequested, h.fifo, h.stopped, fun _ => ?_, h.bounded⟩
    obtain ⟨n, hn⟩ := Option.isSome_iff_exists.mp (h.stopped ▸ hstopped)
    have hle := h.bounded n hn
    rw [h.fifo, hempty, List.append_nil] at hle
    exact ⟨n, hn, hle⟩
  | dequeues hqueue =>
    refine ⟨h.notRequested, ?_, h.stopped, fun hpos => ?_, h.bounded⟩
    · rw [h.fifo, hqueue, List.append_assoc]
      rfl
    · obtain ⟨n, hn, hle⟩ := h.returned hpos
      exact ⟨n, hn, by rw [List.length_append]; omega⟩
  | _ => exact ⟨h.notRequested, h.fifo, h.stopped, h.returned, h.bounded⟩

theorem ordered (hw : (system numThreads).Reach ok w) : Ordered w.shared := by
  apply shared_invariant (I := Ordered) ?_ ?_ ?_ hw
  · exact ⟨rfl, rfl, rfl, fun hpos => absurd hpos (Nat.lt_irrefl 0), by rintro n ⟨⟩⟩
  · intro choice s f s' fs hsteps h
    exact h.steps hsteps
  · intro s event s' fs harrived h
    cases harrived with
    | call => exact h
    | startWorker => exact ⟨h.notRequested, h.fifo, h.stopped, h.returned, h.bounded⟩

theorem step_balance (paid due : Shared → Nat) (weight : Frame → Nat)
    (hinit : paid (Shared.initial numThreads) = due (Shared.initial numThreads))
    (hexec : ∀ choice s f s' fs, Frame.Steps choice s f s' fs →
      paid s' + tally weight fs + due s = due s' + (paid s + weight f))
    (harrive : ∀ s event s' fs, s.Arrived event s' fs →
      paid s' + tally weight fs + due s = due s' + paid s)
    (hw : (system numThreads).Reach ok w) :
    paid w.shared + w.weigh weight = due w.shared := by
  apply Program.balance (p := program numThreads) paid due weight ?_ ?_ ?_ hw
  · rintro s rfl
    exact hinit
  · intro choice s f
    exact hexec choice s f _ _ (f.steps_exec choice s)
  · intro w event s' fs _ harrived
    exact harrive w.shared event s' fs (Shared.arrived harrived)

theorem weight_frame (weight : Frame → Nat) (hemplace : ∀ task, weight (.enqueue task .emplace) = 0)
    (hset : weight (.stop .set) = 0) (call : ApiCall) : weight call.frame = 0 := by
  cases call with
  | enqueue task => exact hemplace task
  | stop => exact hset

theorem workers_eq (hw : (system numThreads).Reach ok w) :
    w.shared.exited + w.shared.unstarted + w.weigh Frame.isWorker = numThreads := by
  apply step_balance (fun s => s.exited + s.unstarted) (fun _ => numThreads) Frame.isWorker
    (Nat.zero_add _) ?_ ?_ hw
  · intro choice s f s' fs hsteps
    cases hsteps with
    | calls call =>
      rw [tally_cons, weight_frame Frame.isWorker (fun _ => rfl) rfl]
      simp only [tally_cons, tally_nil, Frame.isWorker]
      omega
    | _ =>
      simp only [tally_cons, tally_nil, Frame.isWorker]
      omega
  · intro s event s' fs harrived
    cases harrived with
    | call call =>
      rw [tally_cons, weight_frame Frame.isWorker (fun _ => rfl) rfl, tally_nil]
      omega
    | startWorker hunstarted =>
      simp only [tally_cons, tally_nil, Frame.isWorker]
      omega

theorem invoked_eq (name : Nat) (hw : (system numThreads).Reach ok w) :
    w.shared.invoked.count (some name) + w.weigh (Frame.runs name) =
      w.shared.dequeued.count (some name) := by
  apply step_balance (fun s => s.invoked.count (some name))
    (fun s => s.dequeued.count (some name)) (Frame.runs name) rfl ?_ ?_ hw
  · intro choice s f s' fs hsteps
    cases hsteps with
    | calls call =>
      rw [tally_cons, weight_frame (Frame.runs name) (fun _ => rfl) rfl]
      simp only [tally_cons, tally_nil, Frame.runs]
      omega
    | dequeues hqueue =>
      simp only [List.count_append, List.count_singleton, beq_iff_eq, tally_cons, tally_nil,
        Frame.runs]
      omega
    | invokes n =>
      simp only [List.count_append, List.count_singleton, beq_iff_eq, tally_cons, tally_nil,
        Frame.runs]
      omega
    | skips =>
      simp only [tally_cons, tally_nil, Frame.runs, reduceCtorEq, if_false]
      omega
    | _ =>
      simp only [tally_cons, tally_nil, Frame.runs]
      omega
  · intro s event s' fs harrived
    cases harrived with
    | call call =>
      rw [tally_cons, weight_frame (Frame.runs name) (fun _ => rfl) rfl, tally_nil]
      omega
    | startWorker hunstarted =>
      simp only [tally_cons, tally_nil, Frame.runs]
      omega

theorem step_focus (weight : Frame → Nat) {J : Shared → Nat → Prop}
    (hinit : J (Shared.initial numThreads) 0)
    (hexec : ∀ choice s f s' fs others, Frame.Steps choice s f s' fs → J s (weight f + others) →
      J s' (tally weight fs + others))
    (harrive : ∀ s event s' fs n, s.Arrived event s' fs → J s n → J s' (tally weight fs + n))
    (hw : (system numThreads).Reach ok w) : J w.shared (w.weigh weight) := by
  apply Program.focus (p := program numThreads) (fun s => s) weight ?_ ?_ ?_ hw
  · rintro s rfl
    exact hinit
  · intro w tid choice f rest others _ _ _ _ ih
    exact hexec choice w.shared f _ _ others (f.steps_exec choice w.shared) ih
  · intro w event s' fs _ _ harrived ih
    exact harrive w.shared event s' fs _ (Shared.arrived harrived) ih

theorem waitsWith_pos {ticket : Nat} (hw : (system numThreads).Reach ok w)
    (hwaits : ticket ∈ w.shared.condition.waiters) : 0 < w.weigh (Frame.waitsWith ticket) := by
  apply step_focus (Frame.waitsWith ticket)
    (J := fun s n => ticket ∈ s.condition.waiters → 0 < n) ?_ ?_ ?_ hw hwaits
  · intro hmem
    cases hmem
  · intro choice s f s' fs others hsteps ih hmem
    cases hsteps with
    | notifyOne task =>
      have hpos := ih (Condition.mem_of_mem_notifyOne hmem)
      simpa [Frame.waitsWith] using hpos
    | notifyAll => cases hmem
    | waits hrunning hempty =>
      rcases Condition.mem_wait.mp hmem with hold | rfl
      · have hpos := ih hold
        simp only [Frame.waitsWith] at hpos
        omega
      · exact Nat.add_pos_left (by simp [Frame.waitsWith]) _
    | @wakes t hgone =>
      have hne : t ≠ ticket := fun heq => hgone (heq ▸ hmem)
      have hpos := ih hmem
      simpa [Frame.waitsWith, hne] using hpos
    | @wakesSpuriously t hwaits =>
      obtain ⟨hold, hne⟩ := Condition.mem_leave.mp hmem
      have hpos := ih hold
      simpa [Frame.waitsWith, hne.symm] using hpos
    | calls call =>
      rw [tally_cons, weight_frame (Frame.waitsWith ticket) (fun _ => rfl) rfl]
      simpa [Frame.waitsWith] using ih hmem
    | _ => simpa [Frame.waitsWith] using ih hmem
  · intro s event s' fs n harrived ih hmem
    cases harrived <;> exact Nat.add_pos_right _ (ih hmem)

theorem stopped_wakes (hw : (system numThreads).Reach ok w) (hstopped : w.shared.stopped = true) :
    w.shared.condition.waiters = [] ∨ 0 < w.weigh Frame.notifiesAll := by
  apply step_focus Frame.notifiesAll
    (J := fun s n => s.stopped = true → s.condition.waiters = [] ∨ 0 < n) ?_ ?_ ?_ hw hstopped
  · intro _
    exact .inl rfl
  · intro choice s f s' fs others hsteps ih hstop
    cases hsteps with
    | notifyOne task =>
      refine (ih hstop).imp Condition.notifyOne_waiters_nil fun hpos => ?_
      simpa [Frame.notifiesAll] using hpos
    | stops hrunning => exact .inr (Nat.add_pos_left (by simp [Frame.notifiesAll]) _)
    | notifyAll => exact .inl rfl
    | waits hrunning hempty =>
      rw [show s.stopped = true from hstop] at hrunning
      cases hrunning
    | wakesSpuriously hwaits =>
      refine (ih hstop).imp Condition.leave_waiters_nil fun hpos => ?_
      simpa [Frame.notifiesAll] using hpos
    | calls call =>
      rw [tally_cons, weight_frame Frame.notifiesAll (fun _ => rfl) rfl]
      simpa [Frame.notifiesAll] using ih hstop
    | _ => simpa [Frame.notifiesAll] using ih hstop
  · intro s event s' fs n harrived ih hstop
    cases harrived <;> exact (ih hstop).imp_right (Nat.add_pos_right _)

theorem weigh_attends (waiters : List Nat) (w : World) : w.weigh (Frame.attends waiters) =
    w.weigh Frame.notifies + w.weigh (Frame.isAwake waiters) :=
  Stacks.weigh_add _ _ w

theorem attends_step {tid : Nat} {choice : Choice} {f : Frame} {rest fs : List Frame} {s' : Shared}
    (hw : (system numThreads).Reach ok w) (hthread : w.threads[tid]? = some (f :: rest))
    (hsteps : f.Steps choice w.shared s' fs)
    (ih : w.shared.condition.waiters ≠ [] → w.shared.taskQueue ≠ [] →
      0 < w.weigh (Frame.attends w.shared.condition.waiters))
    (hwaits : s'.condition.waiters ≠ []) (hqueue : s'.taskQueue ≠ []) :
    0 < Stacks.weigh ⟨s', w.threads.set tid (fs ++ rest)⟩
      (Frame.attends s'.condition.waiters) := by
  have hweigh := Stacks.weigh_exec (Frame.attends s'.condition.waiters) hthread s' fs
  have hle : Frame.attends s'.condition.waiters f ≤ w.weigh (Frame.attends s'.condition.waiters) :=
    Stacks.weight_le_weigh hthread
  cases hsteps with
  | notifyOne task =>
    have hbefore : w.shared.condition.waiters ≠ [] := fun hnone =>
      hwaits (Condition.notifyOne_waiters_nil hnone)
    obtain ⟨t, ht, hgone⟩ := Condition.exists_woken hbefore choice.woken
    have hwaiting := waitsWith_pos hw ht
    have hawake := Stacks.weigh_le_weigh (Frame.waitsWith_le_isAwake hgone) w
    have hnotifies : _ ≤ w.weigh Frame.notifies := Stacks.weight_le_weigh hthread
    have hsum := weigh_attends (w.shared.condition.notifyOne choice.woken).waiters w
    simp only [Frame.attends, Frame.notifies, Frame.isAwake, tally_nil] at hweigh hnotifies ⊢
    omega
  | notifyAll => exact absurd rfl hwaits
  | waits hrunning hempty => exact absurd hempty hqueue
  | returns hstop hempty => exact absurd hempty hqueue
  | calls call =>
    have hcall : Frame.attends w.shared.condition.waiters call.frame = 0 :=
      weight_frame _ (fun _ => rfl) rfl call
    have hpos := ih hwaits hqueue
    rw [tally_cons, hcall, tally_cons, tally_nil] at hweigh
    omega
  | stoppedBefore | blocked | done =>
    have hpos := ih hwaits hqueue
    simp only [tally_cons, tally_nil] at hweigh
    simp only [Frame.attends, Frame.notifies, Frame.isAwake] at *
    omega
  | _ =>
    simp only [tally_cons, tally_nil] at hweigh
    simp only [Frame.attends, Frame.notifies, Frame.isAwake] at *
    omega

/-- Who waits does not do so for ever: a task that is queued while somebody waits has
somebody awake, or a notification to come. -/
theorem attends_pos (hw : (system numThreads).Reach ok w) (hwaits : w.shared.condition.waiters ≠ [])
    (hqueue : w.shared.taskQueue ≠ []) :
    0 < w.weigh (Frame.attends w.shared.condition.waiters) := by
  apply Program.invariant (p := program numThreads)
    (I := fun w => w.shared.condition.waiters ≠ [] → w.shared.taskQueue ≠ [] →
      0 < w.weigh (Frame.attends w.shared.condition.waiters)) ?_ ?_ ?_ hw hwaits hqueue
  · rintro s rfl hwaits
    exact absurd rfl hwaits
  · intro w tid choice f rest hreach ih _ hthread
    exact attends_step hreach hthread (f.steps_exec choice w.shared) ih
  · intro w event s' fs hreach ih _ harrived hwaits hqueue
    rw [Stacks.weigh_spawn]
    cases Shared.arrived harrived with
    | call call hstarted => exact Nat.add_pos_left (ih hwaits hqueue) _
    | startWorker hunstarted => exact Nat.add_pos_left (ih hwaits hqueue) _

theorem attended (hw : (system numThreads).Reach ok w) (hqueue : w.shared.taskQueue ≠ [])
    (hleft : 0 < w.weigh Frame.isWorker)
    (hasleep : w.weigh (Frame.isAwake w.shared.condition.waiters) = 0) :
    0 < w.weigh Frame.notifies := by
  have hwaits : w.shared.condition.waiters ≠ [] := by
    intro hnone
    rw [hnone, Frame.isAwake_nil] at hasleep
    omega
  have hpos := attends_pos hw hwaits hqueue
  rw [weigh_attends] at hpos
  omega

end FastPort.Commons.ThreadPool
