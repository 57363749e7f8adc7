import FastPort.Foundation.Rest
import FastPort.Services.IOServiceStop

/-! The service left to itself comes to rest, and at rest `Stop` and `Wait` have returned. -/
namespace FastPort.Services.IOService

open FastPort.Foundation FastPort.Foundation.Pool FastPort.Foundation.Stack
open FastPort.Foundation.Tally FastPort.Foundation.Threads FastPort.Foundation.Transition
open FastPort.Foundation.WaitSet

variable {ok : World → Label → Prop} {w w' : World} {s s' : Shared}

theorem terminated_wakes (hw : system.Reach ok w) (hterminated : w.shared.terminated = true) :
    w.shared.condition.waiters = [] ∨ 0 < w.weigh Frame.notifies := by
  apply known.focus Frame.notifies
    (J := fun s n => s.terminated = true → s.condition.waiters = [] ∨ 0 < n)
    ?_ ?_ ?_ hw hterminated
  · rintro s rfl _
    exact .inl rfl
  · intro choice s f s' fs others hsteps ih hstop
    cases hsteps with
    | resumes n => cases hstop
    | terminates => exact .inr (Nat.add_pos_left Nat.one_pos _)
    | notifies => exact .inl rfl
    | waits hrunning =>
      rw [hrunning] at hstop
      cases hstop
    | wakesSpuriously hspurious => exact (ih hstop).imp_left Condition.leave_waiters_nil
    | _ =>
      simpa [Frame.notifies, Shared.createCompletionPort, Shared.enqueue, Shared.dequeue]
        using ih hstop
  · intro s event s' fs n harrived ih hstop
    cases harrived <;> exact (ih hstop).imp_right (Nat.add_pos_right _)

/-- The service goes on by itself: a thread that was created runs, or a thread takes a step
that changes something, where consumers return and waits end by notifications only. -/
def GoesOn (w w' : World) : Prop :=
  w' ≠ w ∧ ((∃ id, system.step w (.spawn (.startWorker id)) = some w') ∨
    ∃ tid granted, system.step w (.run tid ⟨granted, false⟩) = some w')

def AtRest (w : World) : Prop := ∀ w', ¬ GoesOn w w'

def Frame.toGo : Frame → Nat
  | stop (.post _) => 5
  | stop (.join _) => 4
  | stop .clear => 3
  | stop .store => 2
  | stop .notifyAll => 1
  | _ => 0

/-- How many steps a frame may still cost until `Stop` has come further. A new thread and a
result in the port cost two more. -/
def Frame.effort (waiters : List Nat) : Frame → Nat
  | start (.createCompletionPort n) => 3 * n + 3
  | start (.store n) => 3 * n + 2
  | start (.emplaceBack n) => 3 * n + 1
  | stop (.post n) => 3 * n
  | stop (.join ids) => ids.length
  | stop _ => 0
  | worker _ .getQueuedCompletionStatus => 1
  | worker _ (.onIOCompleted _) => 2
  | wait .predicate => 1
  | wait (.waiting ticket) => if ticket ∈ waiters then 0 else 2

def effort (w : World) : Nat :=
  2 * w.shared.port.length + 2 * w.shared.crew.unstarted.length +
    w.weigh (Frame.effort w.shared.condition.waiters)

def rank (w : World) : Nat × Nat := (w.weigh Frame.toGo, effort w)

def Falls : Nat × Nat → Nat × Nat → Prop := Prod.Lex (· < ·) (· < ·)

theorem falls_wf : WellFounded Falls := (Prod.lex Nat.lt_wfRel Nat.lt_wfRel).wf

theorem Frame.effort_mono {waiters waiters' : List Nat} (h : ∀ t ∈ waiters, t ∈ waiters')
    (f : Frame) : f.effort waiters' ≤ f.effort waiters := by
  cases f with
  | wait pc =>
    cases pc with
    | predicate => exact Nat.le_refl _
    | waiting ticket =>
      simp only [effort]
      split
      · exact Nat.zero_le _
      · rename_i hnone
        exact Nat.le_of_eq (if_neg fun hsome => hnone (h ticket hsome)).symm
  | start pc | stop pc | worker id pc => cases pc <;> exact Nat.le_refl _

/-- A step that changes something brings `Stop` further or costs effort. -/
theorem falls {tid : Nat} {granted : Bool} {f : Frame} {rest fs : List Frame}
    (hthread : w.threads[tid]? = some (f :: rest))
    (hsteps : f.Steps ⟨granted, false⟩ w.shared s' fs) (hmoves : s' ≠ w.shared ∨ fs ≠ [f]) :
    Falls (rank ⟨s', w.threads.set tid (fs ++ rest)⟩) (rank w) := by
  have htoGo := Stacks.weigh_exec Frame.toGo hthread s' fs
  have heffort := Stacks.weigh_exec (Frame.effort s'.condition.waiters) hthread s' fs
  have hright : s'.condition.waiters = w.shared.condition.waiters →
      tally Frame.toGo fs = f.toGo →
      2 * s'.port.length + 2 * s'.crew.unstarted.length +
          tally (Frame.effort w.shared.condition.waiters) fs <
        2 * w.shared.port.length + 2 * w.shared.crew.unstarted.length +
          f.effort w.shared.condition.waiters →
      Falls (rank ⟨s', w.threads.set tid (fs ++ rest)⟩) (rank w) := by
    intro hwaiters hsame hlt
    rw [hwaiters] at heffort
    refine Prod.lex_def.mpr (.inr ⟨?_, ?_⟩)
    · simp only [rank]
      omega
    · simp only [rank, effort, hwaiters]
      omega
  have hleft : tally Frame.toGo fs < f.toGo →
      Falls (rank ⟨s', w.threads.set tid (fs ++ rest)⟩) (rank w) := by
    intro hlt
    refine Prod.lex_def.mpr (.inl ?_)
    simp only [rank]
    omega
  cases hsteps with
  | posted | joined | clears | terminates | notifies => exact hleft (by simp [Frame.toGo])
  | blocked | idles | sleeps => exact absurd hmoves (by simp)
  | wakesSpuriously hspurious => cases hspurious
  | waits hrunning =>
    have hsub : ∀ t ∈ w.shared.condition.waiters, t ∈ w.shared.condition.wait.waiters :=
      fun t ht => Condition.mem_wait.mpr (.inl ht)
    have hmono := Stacks.weigh_le_weigh (Frame.effort_mono hsub) w
    have hlast : w.shared.condition.nextTicket ∈ w.shared.condition.wait.waiters :=
      Condition.mem_wait.mpr (.inr rfl)
    refine Prod.lex_def.mpr (.inr ⟨?_, ?_⟩)
    · simpa [rank, Frame.toGo] using htoGo
    · simp only [tally_cons, tally_nil, Frame.effort, hlast, if_true] at heffort
      simp only [rank, effort]
      omega
  | leaves hport | skips hport | takes hport =>
    refine hright rfl rfl ?_
    simp only [Shared.dequeue, Crew.leave, hport, List.length_cons, tally_cons, tally_nil,
      Frame.effort]
    omega
  | wakes hgone =>
    refine hright rfl rfl ?_
    simp only [tally_cons, tally_nil, Frame.effort, if_neg hgone]
    omega
  | _ =>
    refine hright rfl rfl ?_
    simp only [Shared.createCompletionPort, Shared.enqueue, Crew.create, List.length_append,
      List.length_nil, List.length_cons, tally_cons, tally_nil, Frame.effort]
    omega

theorem goesOn_iff :
    GoesOn w w' ↔ Rest.GoesOn program (∃ id, · = .startWorker id) (·.spurious = false) w w' := by
  refine and_congr_right fun _ => or_congr ?_ ?_
  · exact ⟨fun ⟨id, h⟩ => ⟨_, ⟨id, rfl⟩, h⟩, fun ⟨_, ⟨id, hid⟩, h⟩ => ⟨id, hid ▸ h⟩⟩
  · exact ⟨fun ⟨tid, granted, h⟩ => ⟨tid, _, rfl, h⟩,
      fun ⟨tid, choice, hspurious, h⟩ => ⟨tid, choice.granted, hspurious ▸ h⟩⟩

theorem AtRest.atRest (h : AtRest w) :
    Rest.AtRest program (∃ id, · = .startWorker id) (·.spurious = false) w :=
  fun w' hgoes => h w' (goesOn_iff.mpr hgoes)

theorem falls_goesOn (hgoes : GoesOn w w') : Falls (rank w') (rank w) := by
  cases (goesOn_iff.mp hgoes).goes with
  | @arrive _ s' fs hown harrived =>
    obtain ⟨id, rfl⟩ := hown
    have harrived : w.shared.arrive (.startWorker id) = some (s', fs) := harrived
    cases Shared.arrived harrived with
    | startWorker hunstarted =>
      have hpos := List.length_pos_of_mem hunstarted
      refine Prod.lex_def.mpr (.inr ⟨?_, ?_⟩)
      · simp [rank, Frame.toGo]
      · simp only [rank, effort, Stacks.weigh_spawn, Crew.enter,
          List.length_erase_of_mem hunstarted, tally_cons, tally_nil, Frame.effort]
        omega
  | @exec tid choice f rest hplain hthread hmoves =>
    obtain ⟨granted, spurious⟩ := choice
    obtain rfl : spurious = false := hplain
    refine falls hthread (f.steps_exec _ w.shared) ?_
    rw [← not_and_or]
    exact fun hsame => hmoves (Prod.ext hsame.1 hsame.2)

theorem acc_goesOn (hw : system.Reach System.free w) :
    Acc (fun w'' w' => GoesOn w' w'') w :=
  System.acc_of_falls falls_wf rank (fun _ _ hreach hgoes => (goesOn_iff.mp hgoes).reach hreach
    (fun _ _ => trivial) fun _ _ => trivial) (fun _ _ _ hgoes => falls_goesOn hgoes) hw

inductive Frame.Blocked (s : Shared) : Frame → Prop where
  | join {id : Nat} {ids : List Nat} (hrunning : id ∉ s.crew.returned) :
      Blocked s (.stop (.join (id :: ids)))
  | idle {id : Nat} (hempty : s.port = []) : Blocked s (.worker id .getQueuedCompletionStatus)
  | sleeping {ticket : Nat} (hwaits : ticket ∈ s.condition.waiters) :
      Blocked s (.wait (.waiting ticket))

theorem Frame.Steps.still {choice : Choice} {f : Frame} {fs : List Frame}
    (hsteps : f.Steps choice s s' fs) (hsame : s' = s) (hframes : fs = [f]) : f.Blocked s := by
  cases hsteps with
  | blocked hrunning => exact .join hrunning
  | idles hempty => exact .idle hempty
  | sleeps hwaits => exact .sleeping hwaits
  | skips hport =>
    have hlength := congrArg (fun s => s.port.length) hsame
    simp [Shared.dequeue, hport] at hlength
  | joins => simp at hframes
  | _ => cases hframes

theorem length_stack_le (hw : system.Reach ok w) : ∀ stack ∈ w.threads, stack.length ≤ 1 := by
  apply known.forall_stack (P := fun stack => stack.length ≤ 1) ?_ ?_ hw
  · intro choice s f s' fs rest hsteps h
    obtain rfl : rest = [] := List.length_eq_zero_iff.mp (by simpa using h)
    cases hsteps <;> simp
  · intro s event s' fs harrived
    cases harrived <;> simp

theorem AtRest.blocked (h : AtRest w) (hw : system.Reach ok w) :
    ∀ stack ∈ w.threads, ∀ f ∈ stack, f.Blocked w.shared :=
  known.forall_frame_atRest h.atRest ⟨true, false⟩ rfl
    (fun _ _ _ hsteps hsame hframes => hsteps.still hsame hframes) (length_stack_le hw)

theorem AtRest.unstarted (h : AtRest w) : w.shared.crew.unstarted = [] := by
  refine List.eq_nil_iff_forall_not_mem.mpr fun id hid => ?_
  have harrive := h.atRest.arrive_eq ⟨id, rfl⟩
  simp [program, Shared.arrive, hid] at harrive

theorem Stage.kept {f : Frame} (h : Stage s f) : Kept s := by
  cases f with
  | start pc => cases pc <;> exact h.1
  | stop pc => cases pc <;> exact h.1
  | worker id pc => exact h.elim
  | wait pc => exact h.elim

theorem kept (hw : system.Reach ok w) : Kept w.shared :=
  (staged hw).shared_holds (fun _ h => h.kept) (·.kept)

theorem stopped (hw : system.Reach ok w) (hidle : w.shared.busy = false)
    (hstopped : w.shared.stoppedAt ≠ none) : w.shared.workers = [] ∧
      w.shared.terminated = true ∧ w.shared.crew.unstarted = [] ∧ w.weigh Frame.isWorker = 0 := by
  have hidle := (staged hw).idle (by rw [owner_eq hw, hidle]; rfl)
  obtain ⟨hnone, hterminated⟩ := hidle.stopped hstopped
  exact ⟨hnone, hterminated, gone_of_returned hw (hidle.kept.listed.returned (by simp [hnone]))⟩

theorem AtRest.returned (h : AtRest w) (hw : system.Reach ok w)
    (hidle : w.shared.busy = false) (hstopped : w.shared.stoppedAt ≠ none) :
    ∀ stack ∈ w.threads, stack = [] := by
  intro stack hstack
  obtain ⟨-, hterminated, -, hworkers⟩ := stopped hw hidle hstopped
  have howner : w.weigh Frame.isOwner = 0 := by rw [owner_eq hw, hidle]; rfl
  have hnotifies : w.weigh Frame.notifies = 0 := by
    have hle := Stacks.weigh_le_weigh (show ∀ f, Frame.notifies f ≤ Frame.isOwner f by
      intro f
      cases f with
      | stop pc => cases pc <;> simp [Frame.notifies, Frame.isOwner]
      | _ => exact Nat.zero_le _) w
    omega
  have hnone := (terminated_wakes hw hterminated).resolve_right (by omega)
  refine List.eq_nil_iff_forall_not_mem.mpr fun f hf => ?_
  cases h.blocked hw stack hstack f hf with
  | join => exact absurd (Stacks.weigh_eq_zero.mp howner stack hstack _ hf) Nat.one_ne_zero
  | idle => exact absurd (Stacks.weigh_eq_zero.mp hworkers stack hstack _ hf) Nat.one_ne_zero
  | sleeping hwaits =>
    rw [hnone] at hwaits
    cases hwaits

end FastPort.Services.IOService
