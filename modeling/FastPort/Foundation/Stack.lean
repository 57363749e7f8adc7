import FastPort.Foundation.Pool

/-! Machines whose threads are stacks of frames: in a step the frame on top of a
stack is replaced by the frames it leads to. Weights of frames are summed over all
stacks. A weight that never sums to more than one marks a token, and what is known
while one frame has it can be proved frame by frame. -/
namespace FastPort.Foundation.Stack

open FastPort.Foundation.Pool FastPort.Foundation.Tally FastPort.Foundation.Transition

structure Program (Shared Frame Choice Event : Type) where
  start : Shared → Prop
  exec : Choice → Shared → Frame → Shared × List Frame
  arrive : Event → Shared → Option (Shared × List Frame)

abbrev Stacks (Shared Frame : Type) := State Shared (List Frame)

variable {Shared Frame Choice Event : Type}

namespace Program

def run (p : Program Shared Frame Choice Event) (choice : Choice) (s : Shared) :
    List Frame → Option (Shared × List Frame)
  | [] => none
  | f :: rest => some ((p.exec choice s f).1, (p.exec choice s f).2 ++ rest)

def machine (p : Program Shared Frame Choice Event) :
    Machine Shared (List Frame) Choice Event where
  start := p.start
  run := p.run
  spawn := p.arrive

def system (p : Program Shared Frame Choice Event) :
    System (Stacks Shared Frame) (Move Choice Event) :=
  p.machine.system

end Program

namespace Stacks

def weigh (w : Stacks Shared Frame) (weight : Frame → Nat) : Nat :=
  tally (tally weight) w.threads

def runs (w : Stacks Shared Frame) : Move Choice Event → Option Frame
  | .run tid _ => w.threads[tid]?.bind List.head?
  | .spawn _ => none

variable {w : Stacks Shared Frame} {tid : Nat} {f : Frame} {rest : List Frame}

theorem runs_eq {choice : Choice} (hthread : w.threads[tid]? = some (f :: rest)) :
    w.runs (.run tid choice : Move Choice Event) = some f := by
  simp [runs, hthread]

theorem exists_thread_of_runs {l : Move Choice Event} (h : w.runs l = some f) :
    ∃ (tid : Nat) (rest : List Frame), w.threads[tid]? = some (f :: rest) := by
  cases l with
  | run tid choice =>
    obtain ⟨stack, hthread, hhead⟩ := Option.bind_eq_some_iff.mp h
    obtain ⟨rest, rfl⟩ := List.head?_eq_some_iff.mp hhead
    exact ⟨tid, rest, hthread⟩
  | spawn event => cases h

theorem weight_le_weigh_of_mem {weight : Frame → Nat} {stack : List Frame}
    (hthread : w.threads[tid]? = some stack) (hf : f ∈ stack) : weight f ≤ w.weigh weight := by
  have hstack := le_tally (tally weight) (List.mem_of_getElem? hthread)
  have hframe := le_tally weight hf
  unfold weigh
  omega

theorem weight_le_weigh {weight : Frame → Nat} (hthread : w.threads[tid]? = some (f :: rest)) :
    weight f ≤ w.weigh weight :=
  weight_le_weigh_of_mem hthread List.mem_cons_self

theorem weight_add_le_weigh {weight : Frame → Nat} {g : Frame}
    (hthread : w.threads[tid]? = some (f :: rest)) (hg : g ∈ rest) :
    weight f + weight g ≤ w.weigh weight := by
  have hstack := le_tally (tally weight) (List.mem_of_getElem? hthread)
  have hbelow := le_tally weight hg
  rw [tally_cons] at hstack
  unfold weigh
  omega

theorem weigh_exec (weight : Frame → Nat) (hthread : w.threads[tid]? = some (f :: rest))
    (s' : Shared) (fs : List Frame) :
    weigh ⟨s', w.threads.set tid (fs ++ rest)⟩ weight + weight f =
      w.weigh weight + tally weight fs := by
  have hset := tally_set (tally weight) (fs ++ rest) hthread
  simp only [tally_append, tally_cons] at hset
  simp only [weigh]
  omega

@[simp] theorem weigh_spawn (weight : Frame → Nat) (w : Stacks Shared Frame) (s' : Shared)
    (fs : List Frame) :
    weigh ⟨s', w.threads ++ [fs]⟩ weight = w.weigh weight + tally weight fs := by
  simp [weigh]

theorem weigh_eq_zero {weight : Frame → Nat} :
    w.weigh weight = 0 ↔ ∀ stack ∈ w.threads, ∀ f ∈ stack, weight f = 0 := by
  simp only [weigh, tally_eq_zero]

theorem weigh_le_weigh {v weight : Frame → Nat} (h : ∀ f, v f ≤ weight f)
    (w : Stacks Shared Frame) : w.weigh v ≤ w.weigh weight :=
  tally_le_tally fun _ _ => tally_le_tally fun f _ => h f

theorem weigh_congr {v weight : Frame → Nat}
    (h : ∀ stack ∈ w.threads, ∀ f ∈ stack, v f = weight f) : w.weigh v = w.weigh weight := by
  apply Nat.le_antisymm
  · exact tally_le_tally fun stack hstack => tally_le_tally fun f hf =>
      Nat.le_of_eq (h stack hstack f hf)
  · exact tally_le_tally fun stack hstack => tally_le_tally fun f hf =>
      Nat.le_of_eq (h stack hstack f hf).symm

theorem weigh_add (v weight : Frame → Nat) (w : Stacks Shared Frame) :
    w.weigh (fun f => v f + weight f) = w.weigh v + w.weigh weight := by
  have hstack : tally (fun f => v f + weight f) =
      fun stack => tally v stack + tally weight stack := by
    funext stack
    exact tally_add v weight stack
  rw [weigh, hstack]
  exact tally_add _ _ w.threads

theorem mem_frames_exec (hthread : w.threads[tid]? = some (f :: rest)) {fs stack : List Frame}
    {g : Frame} (hstack : stack ∈ w.threads.set tid (fs ++ rest)) (hg : g ∈ stack) :
    g ∈ fs ∨ ∃ old ∈ w.threads.set tid rest, g ∈ old := by
  obtain ⟨hlt, -⟩ := List.getElem?_eq_some_iff.mp hthread
  obtain ⟨i, hi⟩ := List.mem_iff_getElem?.mp hstack
  rw [List.getElem?_set] at hi
  split at hi
  · cases hi
    rcases List.mem_append.mp hg with hg | hg
    · exact .inl hg
    · exact .inr ⟨rest, List.mem_set hlt rest, hg⟩
  · rename_i hne
    refine .inr ⟨stack, List.mem_iff_getElem?.mpr ⟨i, ?_⟩, hg⟩
    rw [List.getElem?_set, if_neg hne]
    exact hi

theorem mem_new_or_old (hthread : w.threads[tid]? = some (f :: rest)) {fs stack : List Frame}
    {g : Frame} (hstack : stack ∈ w.threads.set tid (fs ++ rest)) (hg : g ∈ stack) :
    g ∈ fs ∨ ∃ old ∈ w.threads, g ∈ old := by
  refine (mem_frames_exec hthread hstack hg).imp_right ?_
  rintro ⟨old, hold, hgold⟩
  rcases List.mem_or_eq_of_mem_set hold with hold | rfl
  · exact ⟨old, hold, hgold⟩
  · exact ⟨_, List.mem_of_getElem? hthread, List.mem_cons_of_mem f hgold⟩

theorem weigh_rest (weight : Frame → Nat) (hthread : w.threads[tid]? = some (f :: rest)) :
    weigh ⟨w.shared, w.threads.set tid rest⟩ weight + weight f = w.weigh weight :=
  weigh_exec weight hthread w.shared []

theorem weigh_eq_of_alone {v weight : Frame → Nat} (h : ∀ g, v g = 0 → weight g = 0)
    (hthread : w.threads[tid]? = some (f :: rest)) (halone : w.weigh v ≤ v f) :
    w.weigh weight = weight f := by
  have hv := weigh_rest v hthread
  have hnone : weigh ⟨w.shared, w.threads.set tid rest⟩ v = 0 := by omega
  have hzero : weigh ⟨w.shared, w.threads.set tid rest⟩ weight = 0 := by
    rw [weigh_eq_zero] at hnone ⊢
    exact fun stack hstack g hg => h g (hnone stack hstack g hg)
  have hweight := weigh_rest weight hthread
  omega

end Stacks

section

variable (weight : Frame → Nat) (Stage : Shared → Frame → Prop) (Idle : Shared → Prop)

structure Stacks.Staged (w : Stacks Shared Frame) : Prop where
  stage : ∀ stack ∈ w.threads, ∀ f ∈ stack, 0 < weight f → Stage w.shared f
  idle : w.weigh weight = 0 → Idle w.shared

structure Stacks.Settled (s : Shared) (fs : List Frame) : Prop where
  stage : ∀ f ∈ fs, 0 < weight f → Stage s f
  idle : tally weight fs = 0 → Idle s

end

namespace Stacks.Settled

variable {weight : Frame → Nat} {Stage : Shared → Frame → Prop} {Idle : Shared → Prop}
variable {s : Shared} {f : Frame} {fs : List Frame}

theorem of_idle (h : Idle s) (hnone : tally weight fs = 0) :
    Stacks.Settled weight Stage Idle s fs where
  stage := by
    intro g hg hpos
    have hzero := tally_eq_zero.mp hnone g hg
    omega
  idle := fun _ => h

theorem cons (h : Stage s f) (hpos : 0 < weight f) (hnone : tally weight fs = 0) :
    Stacks.Settled weight Stage Idle s (f :: fs) where
  stage := by
    intro g hg hg'
    rcases List.mem_cons.mp hg with rfl | hg
    · exact h
    · have hzero := tally_eq_zero.mp hnone g hg
      omega
  idle := by
    intro hzero
    rw [tally_cons] at hzero
    omega

theorem skip (h : Stacks.Settled weight Stage Idle s fs) (hzero : weight f = 0) :
    Stacks.Settled weight Stage Idle s (f :: fs) where
  stage := by
    intro g hg hg'
    rcases List.mem_cons.mp hg with rfl | hg
    · omega
    · exact h.stage g hg hg'
  idle := by
    intro hnone
    rw [tally_cons] at hnone
    exact h.idle (by omega)

theorem skips (h : Stacks.Settled weight Stage Idle s fs) {gs : List Frame}
    (hzero : ∀ g ∈ gs, weight g = 0) : Stacks.Settled weight Stage Idle s (gs ++ fs) := by
  induction gs with
  | nil => exact h
  | cons g gs ih =>
    exact (ih fun g hg => hzero g (List.mem_cons_of_mem _ hg)).skip (hzero g List.mem_cons_self)

end Stacks.Settled

namespace Stacks.Staged

variable {weight : Frame → Nat} {Stage : Shared → Frame → Prop} {Idle : Shared → Prop}
variable {w : Stacks Shared Frame} {tid : Nat} {f : Frame} {rest fs : List Frame} {s' : Shared}

theorem congr {w' : Stacks Shared Frame} (h : Stacks.Staged weight Stage Idle w)
    (hframes : ∀ stack ∈ w'.threads, ∀ f ∈ stack, 0 < weight f → ∃ old ∈ w.threads, f ∈ old)
    (hweigh : w'.weigh weight = w.weigh weight)
    (hstage : ∀ f, Stage w.shared f → Stage w'.shared f) (hidle : Idle w.shared → Idle w'.shared) :
    Stacks.Staged weight Stage Idle w' := by
  constructor
  · intro stack hstack f hf hpos
    obtain ⟨old, hold, hmem⟩ := hframes stack hstack f hf hpos
    exact hstage f (h.stage old hold f hmem hpos)
  · intro hnone
    exact hidle (h.idle (hweigh ▸ hnone))

theorem shared_holds (h : Stacks.Staged weight Stage Idle w) {P : Shared → Prop}
    (hstage : ∀ f, Stage w.shared f → P w.shared) (hidle : Idle w.shared → P w.shared) :
    P w.shared := by
  by_cases hnone : w.weigh weight = 0
  · exact hidle (h.idle hnone)
  · obtain ⟨stack, hstack, hpos⟩ := exists_of_tally_pos (Nat.pos_of_ne_zero hnone)
    obtain ⟨f, hf, hpos⟩ := exists_of_tally_pos hpos
    exact hstage f (h.stage stack hstack f hf hpos)

theorem arrive_none (hnone : w.weigh weight = 0) (hfs : Stacks.Settled weight Stage Idle s' fs) :
    Stacks.Staged weight Stage Idle ⟨s', w.threads ++ [fs]⟩ := by
  constructor
  · intro stack hstack g hg hpos
    rcases List.mem_append.mp hstack with hold | hnew
    · have hzero := weigh_eq_zero.mp hnone stack hold g hg
      omega
    · obtain rfl := List.mem_singleton.mp hnew
      exact hfs.stage g hg hpos
  · intro hzero
    rw [weigh_spawn] at hzero
    exact hfs.idle (by omega)

theorem arrive_some {Stage' : Shared → Frame → Prop} {Idle' : Shared → Prop}
    (h : Stacks.Staged weight Stage Idle w) (hsome : 0 < w.weigh weight)
    (hnext : Stacks.weigh ⟨s', w.threads ++ [fs]⟩ weight ≤ 1)
    (hframe : ∀ g, 0 < weight g → Stage w.shared g → Stage' s' g) :
    Stacks.Staged weight Stage' Idle' ⟨s', w.threads ++ [fs]⟩ := by
  rw [weigh_spawn] at hnext
  constructor
  · intro stack hstack g hg hpos
    rcases List.mem_append.mp hstack with hold | hnew
    · exact hframe g hpos (h.stage stack hold g hg hpos)
    · obtain rfl := List.mem_singleton.mp hnew
      have hle := le_tally weight hg
      omega
  · intro hnone
    rw [weigh_spawn] at hnone
    omega

theorem owner (hone : w.weigh weight ≤ 1) (hthread : w.threads[tid]? = some (f :: rest))
    (hpos : 0 < weight f) (hfs : Stacks.Settled weight Stage Idle s' fs) :
    Stacks.Staged weight Stage Idle ⟨s', w.threads.set tid (fs ++ rest)⟩ := by
  have hrest := weigh_rest weight hthread
  constructor
  · intro stack hstack g hg hg'
    rcases mem_frames_exec hthread hstack hg with hnew | ⟨old, hold, hgold⟩
    · exact hfs.stage g hnew hg'
    · have hnone : weigh ⟨w.shared, w.threads.set tid rest⟩ weight = 0 := by omega
      have hzero := weigh_eq_zero.mp hnone old hold g hgold
      omega
  · intro hnone
    have hweigh := weigh_exec weight hthread s' fs
    exact hfs.idle (by omega)

theorem other (h : Stacks.Staged weight Stage Idle w)
    (hthread : w.threads[tid]? = some (f :: rest)) (hzero : weight f = 0)
    (hnext : Stacks.weigh ⟨s', w.threads.set tid (fs ++ rest)⟩ weight ≤ 1)
    (hframe : ∀ g, 0 < weight g → Stage w.shared g → Stage s' g)
    (hfs : Idle w.shared → Stacks.Settled weight Stage Idle s' fs) :
    Stacks.Staged weight Stage Idle ⟨s', w.threads.set tid (fs ++ rest)⟩ := by
  have hweigh := weigh_exec weight hthread s' fs
  have hrest := weigh_rest weight hthread
  constructor
  · intro stack hstack g hg hg'
    rcases mem_new_or_old hthread hstack hg with hnew | ⟨old, hold, hgold⟩
    · have hle := le_tally weight hnew
      exact (hfs (h.idle (by omega))).stage g hnew hg'
    · exact hframe g hg' (h.stage old hold g hgold hg')
  · intro hnone
    exact (hfs (h.idle (by omega))).idle (by omega)

theorem arrive (h : Stacks.Staged weight Stage Idle w)
    (hnext : Stacks.weigh ⟨s', w.threads ++ [fs]⟩ weight ≤ 1)
    (hframe : 0 < w.weigh weight → ∀ g, 0 < weight g → Stage w.shared g → Stage s' g)
    (hfs : w.weigh weight = 0 → Idle w.shared → Stacks.Settled weight Stage Idle s' fs) :
    Stacks.Staged weight Stage Idle ⟨s', w.threads ++ [fs]⟩ := by
  rw [weigh_spawn] at hnext
  constructor
  · intro stack hstack g hg hg'
    rcases List.mem_append.mp hstack with hold | hnew
    · have hle := le_tally (tally weight) hold
      have hle' := le_tally weight hg
      have hsome : 0 < w.weigh weight := by
        unfold weigh
        omega
      exact hframe hsome g hg' (h.stage stack hold g hg hg')
    · obtain rfl := List.mem_singleton.mp hnew
      have hle := le_tally weight hg
      have hnone : w.weigh weight = 0 := by omega
      exact (hfs hnone (h.idle hnone)).stage g hg hg'
  · intro hnone
    rw [weigh_spawn] at hnone
    have hnone' : w.weigh weight = 0 := by omega
    exact (hfs hnone' (h.idle hnone')).idle (by omega)

end Stacks.Staged

namespace Program

variable {p : Program Shared Frame Choice Event}
variable {ok : Stacks Shared Frame → Move Choice Event → Prop} {w : Stacks Shared Frame}

theorem reach_exec (hw : p.system.Reach ok w) {tid : Nat} {choice : Choice}
    (hok : ok w (.run tid choice)) {f : Frame} {rest : List Frame}
    (hthread : w.threads[tid]? = some (f :: rest)) :
    p.system.Reach ok ⟨(p.exec choice w.shared f).1,
      w.threads.set tid ((p.exec choice w.shared f).2 ++ rest)⟩ := by
  apply hw.step hok
  simp [system, machine, Machine.system, Machine.step, hthread, run]

theorem reach_arrive (hw : p.system.Reach ok w) {event : Event} (hok : ok w (.spawn event))
    {s' : Shared} {fs : List Frame} (harrived : p.arrive event w.shared = some (s', fs)) :
    p.system.Reach ok ⟨s', w.threads ++ [fs]⟩ := by
  apply hw.step hok
  simp [system, machine, Machine.system, Machine.step, harrived]

inductive Alone (p : Program Shared Frame Choice Event) (choice : Choice) :
    Shared → List Frame → Shared → List Frame → Prop where
  | refl {s : Shared} {stack : List Frame} : Alone p choice s stack s stack
  | step {s s' : Shared} {f : Frame} {rest stack' : List Frame} :
      Alone p choice (p.exec choice s f).1 ((p.exec choice s f).2 ++ rest) s' stack' →
      Alone p choice s (f :: rest) s' stack'

theorem Alone.exec {choice : Choice} {s s' s'' : Shared} {f : Frame}
    {fs rest stack'' : List Frame} (hexec : p.exec choice s f = (s', fs))
    (h : p.Alone choice s' (fs ++ rest) s'' stack'') :
    p.Alone choice s (f :: rest) s'' stack'' := by
  apply Alone.step
  rw [hexec]
  exact h

theorem invariant {I : Stacks Shared Frame → Prop} (hinit : ∀ s, p.start s → I ⟨s, []⟩)
    (hexec : ∀ w tid choice f rest, p.system.Reach ok w → I w → ok w (.run tid choice) →
      w.threads[tid]? = some (f :: rest) →
      I ⟨(p.exec choice w.shared f).1, w.threads.set tid ((p.exec choice w.shared f).2 ++ rest)⟩)
    (harrive : ∀ w event s' fs, p.system.Reach ok w → I w → ok w (.spawn event) →
      p.arrive event w.shared = some (s', fs) → I ⟨s', w.threads ++ [fs]⟩)
    (hw : p.system.Reach ok w) : I w := by
  apply Machine.invariant hinit ?_ harrive hw
  intro w tid choice stack s' stack' hreach hI hok hthread hrun
  cases stack with
  | nil => cases hrun
  | cons f rest =>
    cases hrun
    exact hexec w tid choice f rest hreach hI hok hthread

theorem forall_stack {P : List Frame → Prop}
    (hexec : ∀ w tid choice f rest, p.system.Reach ok w → ok w (.run tid choice) →
      P (f :: rest) → P ((p.exec choice w.shared f).2 ++ rest))
    (harrive : ∀ w event s' fs, p.system.Reach ok w → ok w (.spawn event) →
      p.arrive event w.shared = some (s', fs) → P fs)
    (hw : p.system.Reach ok w) : ∀ stack ∈ w.threads, P stack := by
  apply invariant (I := fun w => ∀ stack ∈ w.threads, P stack) ?_ ?_ ?_ hw
  · intro s _ stack hstack
    cases hstack
  · intro w tid choice f rest hreach ih hok hthread
    apply forall_mem_set ih
    exact hexec w tid choice f rest hreach hok (ih _ (List.mem_of_getElem? hthread))
  · intro w event s' fs hreach ih hok harrived
    apply forall_mem_append_singleton ih
    exact harrive w event s' fs hreach hok harrived

theorem invariant_after {I : Stacks Shared Frame → Prop} {w' : Stacks Shared Frame} (hstart : I w)
    (hexec : ∀ w tid choice f rest, I w → w.threads[tid]? = some (f :: rest) →
      I ⟨(p.exec choice w.shared f).1, w.threads.set tid ((p.exec choice w.shared f).2 ++ rest)⟩)
    (harrive : ∀ w event s' fs, I w → p.arrive event w.shared = some (s', fs) →
      I ⟨s', w.threads ++ [fs]⟩)
    (hlater : (p.system.after w).Reach ok w') : I w' := by
  apply hlater.invariant
  · rintro s rfl
    exact hstart
  · intro w l w' _ hI _ hstep
    cases Machine.moved_of_step hstep with
    | @run tid choice stack stack' s' hthread hrun =>
      cases stack with
      | nil => cases hrun
      | cons f rest =>
        cases hrun
        exact hexec w tid choice f rest hI hthread
    | spawn harrived => exact harrive w _ _ _ hI harrived

theorem balance (paid due : Shared → Nat) (weight : Frame → Nat)
    (hinit : ∀ s, p.start s → paid s = due s)
    (hexec : ∀ choice s f, paid (p.exec choice s f).1 + tally weight (p.exec choice s f).2 + due s =
      due (p.exec choice s f).1 + (paid s + weight f))
    (harrive : ∀ w event s' fs, p.system.Reach ok w → p.arrive event w.shared = some (s', fs) →
      paid s' + tally weight fs + due w.shared = due s' + paid w.shared)
    (hw : p.system.Reach ok w) : paid w.shared + w.weigh weight = due w.shared := by
  apply invariant (I := fun w => paid w.shared + w.weigh weight = due w.shared) ?_ ?_ ?_ hw
  · intro s hs
    exact hinit s hs
  · intro w tid choice f rest _ ih _ hthread
    have hstep := hexec choice w.shared f
    have hweigh := Stacks.weigh_exec weight hthread (p.exec choice w.shared f).1
      (p.exec choice w.shared f).2
    simp only
    omega
  · intro w event s' fs hreach ih _ harrived
    have hstep := harrive w event s' fs hreach harrived
    simp only [Stacks.weigh_spawn]
    omega

/-- One part of the shared state, and what the frames weigh in all: the rule gives what
the other frames weigh as a number of its own. -/
theorem focus {View : Type} (view : Shared → View) (weight : Frame → Nat) {J : View → Nat → Prop}
    (hinit : ∀ s, p.start s → J (view s) 0)
    (hexec : ∀ w tid choice f rest others, p.system.Reach ok w → ok w (.run tid choice) →
      w.threads[tid]? = some (f :: rest) → w.weigh weight = weight f + others →
      J (view w.shared) (weight f + others) →
      J (view (p.exec choice w.shared f).1) (tally weight (p.exec choice w.shared f).2 + others))
    (harrive : ∀ w event s' fs, p.system.Reach ok w → ok w (.spawn event) →
      p.arrive event w.shared = some (s', fs) → J (view w.shared) (w.weigh weight) →
      J (view s') (tally weight fs + w.weigh weight))
    (hw : p.system.Reach ok w) : J (view w.shared) (w.weigh weight) := by
  apply invariant (I := fun w => J (view w.shared) (w.weigh weight)) ?_ ?_ ?_ hw
  · intro s hs
    exact hinit s hs
  · intro w tid choice f rest hreach ih hok hthread
    have hle : weight f ≤ w.weigh weight := Stacks.weight_le_weigh hthread
    have hothers : w.weigh weight = weight f + (w.weigh weight - weight f) := by omega
    have hweigh := Stacks.weigh_exec weight hthread (p.exec choice w.shared f).1
      (p.exec choice w.shared f).2
    have hnext : tally weight (p.exec choice w.shared f).2 + (w.weigh weight - weight f) =
        Stacks.weigh ⟨(p.exec choice w.shared f).1,
          w.threads.set tid ((p.exec choice w.shared f).2 ++ rest)⟩ weight := by omega
    rw [← hnext]
    exact hexec w tid choice f rest _ hreach hok hthread hothers (hothers ▸ ih)
  · intro w event s' fs hreach ih hok harrived
    have h := harrive w event s' fs hreach hok harrived ih
    rw [Stacks.weigh_spawn, Nat.add_comm]
    exact h

theorem flag (held : Shared → Bool) (weight : Frame → Nat)
    (hinit : ∀ s, p.start s → held s = false)
    (hexec : ∀ choice s f, (0 < weight f → held s = true) →
      tally weight (p.exec choice s f).2 + (held s).toNat =
        (held (p.exec choice s f).1).toNat + weight f)
    (harrive : ∀ event s s' fs, p.arrive event s = some (s', fs) →
      tally weight fs + (held s).toNat = (held s').toNat)
    (hw : p.system.Reach ok w) : w.weigh weight = (held w.shared).toNat := by
  apply focus held weight (J := fun flag n => n = flag.toNat) ?_ ?_ ?_ hw
  · intro s hs
    rw [hinit s hs]
    rfl
  · intro w tid choice f rest others _ _ _ _ ih
    have hstep := hexec choice w.shared f fun hpos => by
      cases hheld : held w.shared with
      | true => rfl
      | false =>
        rw [hheld, Bool.toNat_false] at ih
        omega
    omega
  · intro w event s' fs _ _ harrived ih
    rw [ih]
    exact harrive event w.shared s' fs harrived

theorem invariant_shared {I : Shared → Prop} (hinit : ∀ s, p.start s → I s)
    (hexec : ∀ choice s f, I s → I (p.exec choice s f).1)
    (harrive : ∀ event s s' fs, I s → p.arrive event s = some (s', fs) → I s')
    (hw : p.system.Reach ok w) : I w.shared := by
  apply invariant (I := fun w => I w.shared) hinit ?_ ?_ hw
  · intro w _ choice f _ _ ih _ _
    exact hexec choice w.shared f ih
  · intro w event s' fs _ ih _ harrived
    exact harrive event w.shared s' fs ih harrived

/-- The rule of the token: a step of its owner leads from one stage to the next, any
other step leaves the stage alone or starts from the idle state. -/
theorem token {weight : Frame → Nat} {Stage : Shared → Frame → Prop} {Idle : Shared → Prop}
    (hone : ∀ {w}, p.system.Reach ok w → w.weigh weight ≤ 1)
    (hinit : ∀ s, p.start s → Idle s)
    (howner : ∀ w tid choice f rest, p.system.Reach ok w → ok w (.run tid choice) →
      w.threads[tid]? = some (f :: rest) → 0 < weight f → Stage w.shared f →
      Stacks.Settled weight Stage Idle (p.exec choice w.shared f).1 (p.exec choice w.shared f).2)
    (hother : ∀ w tid choice f rest, p.system.Reach ok w → ok w (.run tid choice) →
      w.threads[tid]? = some (f :: rest) → weight f = 0 →
      (∀ g, 0 < weight g → Stage w.shared g → Stage (p.exec choice w.shared f).1 g) ∧
      (Idle w.shared →
        Stacks.Settled weight Stage Idle (p.exec choice w.shared f).1 (p.exec choice w.shared f).2))
    (harrive : ∀ w event s' fs, p.system.Reach ok w → ok w (.spawn event) →
      p.arrive event w.shared = some (s', fs) →
      (0 < w.weigh weight → ∀ g, 0 < weight g → Stage w.shared g → Stage s' g) ∧
      (w.weigh weight = 0 → Idle w.shared → Stacks.Settled weight Stage Idle s' fs))
    (hw : p.system.Reach ok w) : Stacks.Staged weight Stage Idle w := by
  refine invariant ?_ ?_ ?_ hw
  · exact fun s hs => ⟨by simp, fun _ => hinit s hs⟩
  · intro w tid choice f rest hreach ih hok hthread
    rcases Nat.eq_zero_or_pos (weight f) with hzero | hpos
    · obtain ⟨hframe, hfs⟩ := hother w tid choice f rest hreach hok hthread hzero
      exact ih.other hthread hzero (hone (reach_exec hreach hok hthread)) hframe hfs
    · have hstage := ih.stage _ (List.mem_of_getElem? hthread) f List.mem_cons_self hpos
      exact Stacks.Staged.owner (hone hreach) hthread hpos
        (howner w tid choice f rest hreach hok hthread hpos hstage)
  · intro w event s' fs hreach ih hok harrived
    obtain ⟨hframe, hfs⟩ := harrive w event s' fs hreach hok harrived
    exact ih.arrive (hone (reach_arrive hreach hok harrived)) hframe hfs

end Program

end FastPort.Foundation.Stack
