import FastPort.Foundation.Transition
import FastPort.Foundation.Tally

/-! Machines made of a shared state and a growing pool of threads. In a move one
thread runs one atomic step, or the environment changes the shared state and
adds the thread that deals with the change. -/
namespace FastPort.Foundation.Pool

open FastPort.Foundation.Transition FastPort.Foundation.Tally

structure State (Shared Thread : Type) where
  shared : Shared
  threads : List Thread
deriving DecidableEq

inductive Move (Choice Event : Type) where
  | run (tid : Nat) (choice : Choice)
  | spawn (event : Event)
deriving DecidableEq

structure Machine (Shared Thread Choice Event : Type) where
  start : Shared → Prop
  run : Choice → Shared → Thread → Option (Shared × Thread)
  spawn : Event → Shared → Option (Shared × Thread)

namespace Machine

variable {Shared Thread Choice Event : Type} (m : Machine Shared Thread Choice Event)

def step (w : State Shared Thread) : Move Choice Event → Option (State Shared Thread)
  | .run tid choice =>
      match w.threads[tid]? with
      | none => none
      | some t =>
          match m.run choice w.shared t with
          | none => none
          | some (s', t') => some ⟨s', w.threads.set tid t'⟩
  | .spawn event =>
      match m.spawn event w.shared with
      | none => none
      | some (s', t') => some ⟨s', w.threads ++ [t']⟩

def system : System (State Shared Thread) (Move Choice Event) where
  init w := m.start w.shared ∧ w.threads = []
  step := m.step

inductive Moved (w : State Shared Thread) : Move Choice Event → State Shared Thread → Prop where
  | run {tid : Nat} {choice : Choice} {t t' : Thread} {s' : Shared}
      (hthread : w.threads[tid]? = some t) (hrun : m.run choice w.shared t = some (s', t')) :
      Moved w (.run tid choice) ⟨s', w.threads.set tid t'⟩
  | spawn {event : Event} {t' : Thread} {s' : Shared}
      (hspawn : m.spawn event w.shared = some (s', t')) :
      Moved w (.spawn event) ⟨s', w.threads ++ [t']⟩

variable {m} {ok : State Shared Thread → Move Choice Event → Prop}

theorem moved_of_step {w w' : State Shared Thread} {l : Move Choice Event}
    (h : m.step w l = some w') : m.Moved w l w' := by
  cases l with
  | run tid choice =>
    simp only [step] at h
    split at h
    · cases h
    · rename_i hthread
      split at h
      · cases h
      · rename_i hrun
        cases h
        exact .run hthread hrun
  | spawn event =>
    simp only [step] at h
    split at h
    · cases h
    · rename_i hspawn
      cases h
      exact .spawn hspawn

theorem reach_run {w : State Shared Thread} (hw : m.system.Reach ok w) {tid : Nat}
    {choice : Choice} (hok : ok w (.run tid choice)) {t t' : Thread} {s' : Shared}
    (hthread : w.threads[tid]? = some t) (hrun : m.run choice w.shared t = some (s', t')) :
    m.system.Reach ok ⟨s', w.threads.set tid t'⟩ := by
  apply hw.step hok
  simp [system, step, hthread, hrun]

theorem reach_spawn {w : State Shared Thread} (hw : m.system.Reach ok w) {event : Event}
    (hok : ok w (.spawn event)) {t' : Thread} {s' : Shared}
    (hspawn : m.spawn event w.shared = some (s', t')) :
    m.system.Reach ok ⟨s', w.threads ++ [t']⟩ := by
  apply hw.step hok
  simp [system, step, hspawn]

theorem invariant {I : State Shared Thread → Prop}
    (hinit : ∀ s, m.start s → I ⟨s, []⟩)
    (hrun : ∀ w tid choice t s' t', m.system.Reach ok w → I w → ok w (.run tid choice) →
      w.threads[tid]? = some t → m.run choice w.shared t = some (s', t') →
      I ⟨s', w.threads.set tid t'⟩)
    (hspawn : ∀ w event s' t', m.system.Reach ok w → I w → ok w (.spawn event) →
      m.spawn event w.shared = some (s', t') → I ⟨s', w.threads ++ [t']⟩)
    {w : State Shared Thread} (hw : m.system.Reach ok w) : I w := by
  refine hw.invariant ?_ ?_
  · rintro ⟨s, threads⟩ ⟨hstart, hthreads⟩
    cases hthreads
    exact hinit s hstart
  · intro w l w' hreach hI hok hstep
    cases moved_of_step hstep with
    | run hthread hmove => exact hrun _ _ _ _ _ _ hreach hI hok hthread hmove
    | spawn hmove => exact hspawn _ _ _ _ hreach hI hok hmove

/-- A quantity of the shared state that the threads hold shares of: when every
move changes both alike, the quantity is always the sum of the shares. The rule
is relative to a phase `P` of the run, which no move enters from outside. -/
theorem ledger {P : Shared → Prop} (value : Shared → Int) (share : Thread → Nat)
    (hinit : ∀ s, m.start s → value s = 0)
    (hrun : ∀ w tid choice t s' t', m.system.Reach ok w → ok w (.run tid choice) →
      (P w.shared → value w.shared = tally share w.threads) →
      w.threads[tid]? = some t → m.run choice w.shared t = some (s', t') → P s' →
      P w.shared ∧ value s' + share t = value w.shared + share t')
    (hspawn : ∀ w event s' t', m.system.Reach ok w → ok w (.spawn event) →
      m.spawn event w.shared = some (s', t') → P s' →
      P w.shared ∧ value s' = value w.shared + share t')
    {w : State Shared Thread} (hw : m.system.Reach ok w) (hP : P w.shared) :
    value w.shared = tally share w.threads := by
  refine invariant (I := fun w => P w.shared → value w.shared = tally share w.threads)
    ?_ ?_ ?_ hw hP
  · intro s hstart _
    exact hinit s hstart
  · intro w tid choice t s' t' hreach ih hok hthread hmove hP'
    obtain ⟨hP, hvalue⟩ := hrun w tid choice t s' t' hreach hok ih hthread hmove hP'
    have htally := tally_set share t' hthread
    have := ih hP
    simp only
    omega
  · intro w event s' t' hreach ih hok hmove hP'
    obtain ⟨hP, hvalue⟩ := hspawn w event s' t' hreach hok hmove hP'
    have := ih hP
    simp only [tally_append, tally_cons, tally_nil]
    omega

theorem forall_threads {T : Thread → Prop}
    (hrun : ∀ choice s t s' t', T t → m.run choice s t = some (s', t') → T t')
    (hspawn : ∀ event s s' t', m.spawn event s = some (s', t') → T t')
    {w : State Shared Thread} (hw : m.system.Reach ok w) : ∀ t ∈ w.threads, T t := by
  refine invariant (I := fun w => ∀ t ∈ w.threads, T t) ?_ ?_ ?_ hw
  · simp
  · intro w tid choice t s' t' _ ih _ hthread hmove
    exact forall_mem_set ih (hrun choice _ t s' t' (ih t (List.mem_of_getElem? hthread)) hmove)
  · intro w event s' t' _ ih _ hmove
    exact forall_mem_append_singleton ih (hspawn event _ s' t' hmove)

end Machine

section

variable {Shared Thread Choice Event : Type} (weight : Thread → Nat)
variable (Stage : Shared → Thread → Prop) (Idle : Shared → Prop)

structure Held (w : State Shared Thread) : Prop where
  stage : ∀ t ∈ w.threads, 0 < weight t → Stage w.shared t
  idle : tally weight w.threads = 0 → Idle w.shared

structure Settles (s : Shared) (t : Thread) : Prop where
  stage : 0 < weight t → Stage s t
  idle : weight t = 0 → Idle s

variable {weight Stage Idle} {s : Shared} {t : Thread}

theorem Settles.of_stage (h : Stage s t) (hpos : 0 < weight t) :
    Settles weight Stage Idle s t :=
  ⟨fun _ => h, fun hzero => by omega⟩

theorem Settles.of_idle (h : Idle s) (hzero : weight t = 0) : Settles weight Stage Idle s t :=
  ⟨fun hpos => by omega, fun _ => h⟩

end

/-- The rule of the token: the move of its owner leads from one stage to the next; another
thread takes it up from the idle state, or leaves the stage alone. -/
theorem Machine.token {Shared Thread Choice Event : Type} {m : Machine Shared Thread Choice Event}
    {ok : State Shared Thread → Move Choice Event → Prop} {weight : Thread → Nat}
    {Stage : Shared → Thread → Prop} {Idle : Shared → Prop}
    (hone : ∀ {w}, m.system.Reach ok w → tally weight w.threads ≤ 1)
    (hinit : ∀ s, m.start s → Idle s)
    (howner : ∀ w tid choice t s' t', m.system.Reach ok w → ok w (.run tid choice) →
      w.threads[tid]? = some t → m.run choice w.shared t = some (s', t') →
      0 < weight t → Stage w.shared t → Settles weight Stage Idle s' t')
    (hother : ∀ w tid choice t s' t', m.system.Reach ok w → ok w (.run tid choice) →
      w.threads[tid]? = some t → m.run choice w.shared t = some (s', t') → weight t = 0 →
      (weight t' = 0 → ∀ u, 0 < weight u → Stage w.shared u → Stage s' u) ∧
        (Idle w.shared → Settles weight Stage Idle s' t'))
    (hspawn : ∀ w event s' t', m.system.Reach ok w → ok w (.spawn event) →
      m.spawn event w.shared = some (s', t') →
      (weight t' = 0 → ∀ u, 0 < weight u → Stage w.shared u → Stage s' u) ∧
        (Idle w.shared → Settles weight Stage Idle s' t'))
    {w : State Shared Thread} (hw : m.system.Reach ok w) : Held weight Stage Idle w := by
  refine Machine.invariant (I := Held weight Stage Idle) ?_ ?_ ?_ hw
  · intro s hs
    exact ⟨fun t ht => absurd ht List.not_mem_nil, fun _ => hinit s hs⟩
  · intro w tid choice t s' t' hreach ih hok hthread hmove
    have htally := tally_set weight t' hthread
    have hnext := hone (Machine.reach_run hreach hok hthread hmove)
    have hlast := hone hreach
    simp only at hnext
    have hle := le_tally weight (List.mem_of_getElem? hthread)
    rcases Nat.eq_zero_or_pos (weight t) with hzero | hpos
    · obtain ⟨hkeep, htake⟩ := hother w tid choice t s' t' hreach hok hthread hmove hzero
      constructor
      · intro u hu hpos
        by_cases hnew : weight t' = 0
        · rcases List.mem_or_eq_of_mem_set hu with hold | rfl
          · exact hkeep hnew u hpos (ih.stage u hold hpos)
          · omega
        · -- the token is with the thread that moved
          have hnone : tally weight w.threads = 0 := by omega
          rcases List.mem_or_eq_of_mem_set hu with hold | rfl
          · have := le_tally weight hold
            omega
          · exact (htake (ih.idle hnone)).stage hpos
      · intro hnone
        simp only at hnone
        exact (htake (ih.idle (by omega))).idle (by omega)
    · have hsettles := howner w tid choice t s' t' hreach hok hthread hmove hpos
        (ih.stage t (List.mem_of_getElem? hthread) hpos)
      constructor
      · intro u hu hpos'
        by_cases hsame : u = t'
        · exact hsame ▸ hsettles.stage (hsame ▸ hpos')
        · obtain ⟨i, hi⟩ := List.mem_iff_getElem?.mp hu
          rw [List.getElem?_set] at hi
          split at hi
          · rename_i hiTid
            obtain ⟨hlt, -⟩ := List.getElem?_eq_some_iff.mp hthread
            rw [if_pos (hiTid ▸ hlt)] at hi
            exact absurd (Option.some.inj hi).symm hsame
          · -- another thread has nothing beside the owner
            rename_i hne
            have herase := tally_eraseIdx weight hthread
            have hmem : u ∈ w.threads.eraseIdx tid :=
              List.mem_eraseIdx_iff_getElem?.mpr ⟨i, fun heq => hne heq.symm, hi⟩
            have := le_tally weight hmem
            omega
      · intro hnone
        simp only at hnone
        exact hsettles.idle (by omega)
  · intro w event s' t' hreach ih hok hmove
    obtain ⟨hkeep, htake⟩ := hspawn w event s' t' hreach hok hmove
    have hnext := hone (Machine.reach_spawn hreach hok hmove)
    simp only [tally_append, tally_cons, tally_nil] at hnext
    constructor
    · intro u hu hpos
      rcases List.mem_append.mp hu with hold | hnew
      · have := le_tally weight hold
        exact hkeep (by omega) u hpos (ih.stage u hold hpos)
      · obtain rfl := List.mem_singleton.mp hnew
        exact (htake (ih.idle (by omega))).stage hpos
    · intro hnone
      simp only [tally_append, tally_cons, tally_nil] at hnone
      exact (htake (ih.idle (by omega))).idle (by omega)

end FastPort.Foundation.Pool
