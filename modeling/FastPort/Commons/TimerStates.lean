import FastPort.Commons.TimerCancel

/-! The states of an entry. The end of a periodic callback is a compare-exchange, which
leaves `Cancelled` alone; the end of a one-shot callback is a plain store of `Completed`. -/
namespace FastPort.Commons.TimerQueue

open FastPort.Foundation.Pool FastPort.Foundation.Stack FastPort.Foundation.Tally
open FastPort.Foundation.ThreadpoolTimer FastPort.Foundation.Transition

variable {w w' : World} {id : TimerId}

def Frame.storesCancelled : Frame → Option TimerId
  | act id (.cancelImpl _ _ .storeCancelled) => some id
  | _ => none

/-- `Cancelled` goes to a one-shot entry only while none of its callbacks is between its
compare-exchange at the entry and its store of `Completed`. -/
def StoresApart (w : World) (l : Label) : Prop :=
  ∀ id ∈ (w.runs l).bind Frame.storesCancelled, (w.shared.timers id).isPeriodic = false →
    w.weigh (share id Act.runsJob) = 0

instance (w : World) (l : Label) : Decidable (StoresApart w l) :=
  inferInstanceAs (Decidable (∀ id ∈ (w.runs l).bind Frame.storesCancelled,
    (w.shared.timers id).isPeriodic = false → w.weigh (share id Act.runsJob) = 0))

/-- What may become of the state of an entry: `Cancelled` is the end, and `Completed` is it
too but for a `Cancel` that stores `Cancelled`. -/
structure Terminal (t t' : Timer) : Prop where
  cancels : t.cancelled ≤ t'.cancelled
  cancelled : t.state = .cancelled → t'.state = .cancelled
  completed : t.state = .completed →
    t'.state = .completed ∨ t'.state = .cancelled ∧ t.cancelled < t'.cancelled

theorem Terminal.of_same {t t' : Timer} (hstate : t'.state = t.state)
    (hcancels : t'.cancelled = t.cancelled) : Terminal t t' where
  cancels := Nat.le_of_eq hcancels.symm
  cancelled := fun h => hstate.trans h
  completed := fun h => .inl (hstate.trans h)

theorem Terminal.trans {t t' t'' : Timer} (h : Terminal t t') (h' : Terminal t' t'') :
    Terminal t t'' where
  cancels := Nat.le_trans h.cancels h'.cancels
  cancelled := fun hstate => h'.cancelled (h.cancelled hstate)
  completed := by
    intro hstate
    rcases h.completed hstate with hcompleted | ⟨hcancelled, hlt⟩
    · rcases h'.completed hcompleted with hcompleted' | ⟨hcancelled', hlt'⟩
      · exact .inl hcompleted'
      · exact .inr ⟨hcancelled', Nat.lt_of_le_of_lt h.cancels hlt'⟩
    · exact .inr ⟨h'.cancelled hcancelled, Nat.lt_of_lt_of_le hlt h'.cancels⟩

/-- No act but the end of a one-shot callback takes `Cancelled` away. -/
theorem Stepped.terminal {t t' : Timer} {a : Act} {next : Option Act} (h : Stepped id t a t' next)
    (hkept : a = .runEntry .mark → t.state = .cancelled → t.isPeriodic = true) :
    Terminal t t' := by
  cases h with
  | storeCancelled w c =>
    exact ⟨Nat.le_succ _, fun _ => rfl, fun _ => .inr ⟨rfl, Nat.lt_succ_self _⟩⟩
  | enter hstate =>
    refine ⟨Nat.le_refl _, fun hcancelled => absurd hcancelled hstate, fun hcompleted => .inl ?_⟩
    simp [hcompleted]
  | mark =>
    refine ⟨Nat.le_refl _, fun hcancelled => ?_, fun hcompleted => .inl ?_⟩
    · simp [hkept rfl hcancelled, hcancelled]
    · simp [hcompleted]
  | _ => exact .of_same rfl rfl

/-- A one-shot entry that is `Cancelled` has no callback that will store `Completed`. -/
theorem runsJob_of_cancelled (hw : system.Reach StoresApart w)
    (honce : (w.shared.timers id).isPeriodic = false)
    (hcancelled : (w.shared.timers id).state = .cancelled) :
    w.weigh (share id Act.runsJob) = 0 := by
  apply timer_rule id (J := fun t n => t.isPeriodic = false → t.state = .cancelled → n = 0)
    runsJob_settles ?_ ?_ ?_ ?_ hw honce hcancelled
  · intro _ _
    rfl
  · intro p i _ hstate
    cases hstate
  · intro w tid choice a rest t' next others hreach hok hthread h hweigh ih honce hstate
    have hperiodic := h.isPeriodic
    rw [hperiodic] at honce
    cases h with
    | storeCancelled wait c =>
      have hnone := hok id (by rw [Stacks.runs_eq hthread]; rfl) honce
      rw [hweigh] at hnone
      exact hnone
    | enter hnot =>
      dsimp only at hstate
      split at hstate
      · cases hstate
      · exact absurd hstate hnot
    | mark =>
      dsimp only at hstate
      rw [honce] at hstate
      cases hstate
    | invoke => exact ih honce hstate
    | refused hcancelled => exact ih honce hcancelled
    | _ => exact ih honce hstate
  · intro w t' next _ h ih
    cases h with
    | expire harmed => simpa [Act.runsJob] using ih
    | start hqueued => simpa [Act.runsJob] using ih

theorem terminal_exec (hw : system.Reach StoresApart w) {tid : Nat} {choice : Choice} {f : Frame}
    {rest : List Frame} (hthread : w.threads[tid]? = some (f :: rest)) :
    Terminal (w.shared.timers id) ((f.exec choice w.shared).1.timers id) := by
  have htouched := touched choice w.shared f id
  generalize (f.exec choice w.shared).1.timers id = t' at htouched ⊢
  generalize (f.exec choice w.shared).2.filterMap (Frame.on id) = acts at htouched
  cases htouched with
  | create p i =>
    have hcreates := weight_le_share Act.creates hthread
    rw [Act.creates] at hcreates
    have hcreated := created_le_one id hw
    obtain ⟨hinitial, -⟩ := fresh id hw (by omega)
    rw [hinitial]
    exact ⟨Nat.le_refl _, by rintro ⟨⟩, by rintro ⟨⟩⟩
  | step h =>
    apply h.terminal
    rintro rfl hcancelled
    cases hperiodic : (w.shared.timers id).isPeriodic with
    | true => rfl
    | false =>
      have hnone := runsJob_of_cancelled hw hperiodic hcancelled
      have hmine := weight_le_share Act.runsJob hthread
      rw [hnone] at hmine
      cases hmine
  | allocate p i => exact .of_same rfl rfl
  | other hother hcalls => exact .of_same rfl rfl

theorem terminal_arrive {s s' : Shared} {event : Event} {fs : List Frame}
    (harrived : s.arrive event = some (s', fs)) : Terminal (s.timers id) (s'.timers id) := by
  rcases occurred harrived id with ⟨next, hoccurred, -⟩ | ⟨hsame, -⟩
  · generalize s'.timers id = t' at hoccurred ⊢
    cases hoccurred <;> exact .of_same rfl rfl
  · rw [hsame]
    exact .of_same rfl rfl

/-- From any state of a run to any later one. -/
theorem terminal_states (hw : system.Reach StoresApart w)
    (hlater : (system.after w).Reach StoresApart w') (id : TimerId) :
    Terminal (w.shared.timers id) (w'.shared.timers id) := by
  induction hlater with
  | init hinit =>
    cases hinit
    exact .of_same rfl rfl
  | step hreach hok hstep ih =>
    have hw' := System.Reach.of_after hw hreach
    cases Machine.moved_of_step hstep with
    | @run tid choice stack stack' s' hthread hrun =>
      cases stack with
      | nil => cases hrun
      | cons f rest =>
        cases hrun
        exact ih.trans (terminal_exec hw' hthread)
    | spawn harrived => exact ih.trans (terminal_arrive harrived)

/-- A periodic timer is cancelled from outside while its job runs, up to the store. -/
def storeRunning : List Label :=
  [.spawn (.call (.schedulePeriodic 10))] ++ List.replicate 6 (.run 0 .go) ++
    [.spawn (.expire 1), .spawn (.startCallback 1)] ++ List.replicate 4 (.run 2 .go) ++
    [.spawn (.call (.cancel 1))] ++ List.replicate 3 (.run 3 .go)

theorem terminal_states_storeRunning : ∃ w w' : World,
    (w.shared.timers 1).state = .cancelled ∧ w'.weigh (share 1 Act.executes) = 0 ∧
      Terminal (w.shared.timers 1) (w'.shared.timers 1) := by
  obtain ⟨w, hrun, htest⟩ := System.exists_of_runUnder system StoresApart ⟨Shared.initial, []⟩
    storeRunning (fun w => decide ((w.shared.timers 1).state = .cancelled) &&
      ((system.after w).runUnder StoresApart w (List.replicate 5 (.run 2 .go))).any
        fun w' : World => decide (w'.weigh (share 1 Act.executes) = 0)) (by decide)
  obtain ⟨hstate, hlater⟩ := Bool.and_eq_true_iff.mp htest
  obtain ⟨w', hrun', htest'⟩ := (Option.any_eq_true _ _).mp hlater
  have hw : system.Reach StoresApart w := .of_runUnder (.init init_initial) hrun
  have hw' : (system.after w).Reach StoresApart w' := .of_runUnder (.init rfl) hrun'
  exact ⟨w, w', of_decide_eq_true hstate, of_decide_eq_true htest', terminal_states hw hw' 1⟩

/-- A one-shot timer is cancelled from outside while its job runs, up to the store. -/
def storeOnce : List Label :=
  [.spawn (.call .scheduleOnce)] ++ List.replicate 6 (.run 0 .go) ++
    [.spawn (.expire 1), .spawn (.startCallback 1)] ++ List.replicate 4 (.run 2 .go) ++
    [.spawn (.call (.cancel 1))] ++ List.replicate 3 (.run 3 .go)

/-- The job ends, and `Completed` takes the place of `Cancelled`. -/
theorem not_terminal_states : ¬ ∀ (w w' : World) (id : TimerId), system.Reach System.free w →
    (system.after w).Reach System.free w' → (w.shared.timers id).state = .cancelled →
      (w'.shared.timers id).state = .cancelled := by
  intro hstays
  obtain ⟨w, hrun, htest⟩ := System.exists_of_runUnder system System.free ⟨Shared.initial, []⟩
    storeOnce (fun w => decide ((w.shared.timers 1).state = .cancelled) &&
      ((system.after w).runUnder System.free w (List.replicate 2 (.run 2 .go))).any
        fun w' : World => decide ((w'.shared.timers 1).state = .completed)) (by decide)
  obtain ⟨hstate, hlater⟩ := Bool.and_eq_true_iff.mp htest
  obtain ⟨w', hrun', htest'⟩ := (Option.any_eq_true _ _).mp hlater
  have hcancelled := hstays w w' 1 (.of_runUnder (.init init_initial) hrun)
    (.of_runUnder (.init rfl) hrun') (of_decide_eq_true hstate)
  rw [of_decide_eq_true htest'] at hcancelled
  cases hcancelled

end FastPort.Commons.TimerQueue
