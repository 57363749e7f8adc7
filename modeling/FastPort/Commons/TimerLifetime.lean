import FastPort.Commons.TimerCancel

/-! The lifetime of an entry. Its timer has but a raw pointer to it, so a queued callback
relies on somebody else to keep the entry: the map, `ScheduleImpl`, `CancelImpl` or another
execution. Only that other execution can be the last one to let go of it. -/
namespace FastPort.Commons.TimerQueue

open FastPort.Foundation.Pool FastPort.Foundation.Stack FastPort.Foundation.Tally
open FastPort.Foundation.ThreadpoolTimer FastPort.Foundation.Transition

variable {ok : World → Label → Prop} {w : World} {id : TimerId}

/-- The functions with a `shared_ptr` to the entry among their locals. -/
def Act.owns : Act → Nat
  | scheduleImpl _ _ _ => 1
  | cancelImpl _ _ .checkId => 0
  | cancelImpl _ _ .erase => 0
  | cancelImpl _ _ _ => 1
  | runEntry .tpTimerCallback => 0
  | runEntry .keepAlive => 0
  | runEntry .finish => 0
  | runEntry _ => 1

def owners (w : World) (id : TimerId) : Nat :=
  (w.shared.timers id).published.toNat + w.weigh (share id Act.owns)

/-- The id of the entry that a frame of `RunEntry` is about to let go of. -/
def Frame.releases : Frame → Option TimerId
  | act id (.runEntry .release) => some id
  | _ => none

def LeavesOwner (w : World) (l : Label) : Prop :=
  ∀ id ∈ (w.runs l).bind Frame.releases, owners w id = 1 → (w.shared.timers id).queued = 0

instance (w : World) (l : Label) : Decidable (LeavesOwner w l) :=
  inferInstanceAs (Decidable (∀ id ∈ (w.runs l).bind Frame.releases,
    owners w id = 1 → (w.shared.timers id).queued = 0))

def Guarded (w : World) (l : Label) : Prop := HandedOut w l ∧ LeavesOwner w l

instance (w : World) (l : Label) : Decidable (Guarded w l) :=
  inferInstanceAs (Decidable (HandedOut w l ∧ LeavesOwner w l))

def Act.keeps : Act → Nat
  | scheduleImpl _ _ .createTimer => 0
  | a => a.owns

theorem keeps_settles : Settles Act.keeps :=
  .of_calls (fun _ _ => rfl) (fun _ _ => rfl) (fun _ _ => rfl)

theorem owns_eq (a : Act) : a.owns = a.keeps + a.creates := by
  cases a with
  | scheduleImpl p i pc => cases pc <;> rfl
  | cancelImpl w c pc => cases pc <;> rfl
  | runEntry pc => cases pc <;> rfl

theorem owners_eq (w : World) (id : TimerId) : owners w id =
    (w.shared.timers id).published.toNat +
      (w.weigh (share id Act.keeps) + w.weigh (share id Act.creates)) := by
  rw [owners, ← weigh_share_add, show Act.owns = fun a => a.keeps + a.creates from funext owns_eq]

theorem mustClose_of_keeps {a : Act} (ha : a.keeps = 0) : a.mustClose = 0 := by
  cases a with
  | scheduleImpl p i pc => cases pc <;> first | rfl | cases ha
  | cancelImpl w c pc => cases pc <;> first | rfl | cases ha
  | runEntry pc => cases pc <;> first | rfl | cases ha

theorem kept_of_armed (harms : ∀ w l, ok w l → ArmsFirst w l) (hw : system.Reach ok w)
    (harmed : (w.shared.timers id).armed ≠ none) :
    0 < (w.shared.timers id).published.toNat + w.weigh (share id Act.keeps) := by
  have hclose := close_eq id hw
  have hledger := closed_le_disarmed id hw
  have hdisarmed : (w.shared.timers id).disarmed = 0 := by
    by_contra hpos
    exact harmed (armed_eq_none harms hw (Nat.pos_of_ne_zero hpos))
  have hcreated : (w.shared.timers id).created ≠ 0 := by
    intro hnone
    rw [(fresh _ hw hnone).1] at harmed
    exact harmed rfl
  by_contra hnone
  have hduty : w.weigh (share id Act.mustClose) = 0 :=
    weigh_share_eq_zero (fun _ => mustClose_of_keeps) (v := Act.keeps) (by omega)
  omega

/-- As long as a callback is queued its entry has an owner. -/
theorem kept_of_queued (harms : ∀ w l, ok w l → ArmsFirst w l)
    (hguarded : ∀ w l, ok w l → Guarded w l) (hw : system.Reach ok w)
    (hqueued : 0 < (w.shared.timers id).queued) :
    0 < (w.shared.timers id).published.toNat + w.weigh (share id Act.keeps) := by
  apply timer_rule id (J := fun t n => 0 < t.queued → 0 < t.published.toNat + n) keeps_settles
    ?_ ?_ ?_ ?_ hw hqueued
  · intro hpos
    cases hpos
  · intro p i hpos
    cases hpos
  · intro w tid choice a rest t' next others hreach hok hthread h hweigh ih hpos
    cases h with
    | emplace p i => exact Nat.add_pos_left Nat.one_pos _
    | scheduled p i =>
      have hpublished : (w.shared.timers id).published = true :=
        published_of_hasPublished (fun w l h => (hguarded w l h).1) hreach
          (weight_le_share Act.hasPublished hthread)
      change 0 < (w.shared.timers id).published.toNat + _
      rw [hpublished]
      exact Nat.add_pos_left Nat.one_pos _
    | erase wait c hsome => exact Nat.add_pos_right _ (Nat.add_pos_left Nat.one_pos _)
    | withdraw wait c => exact ih (Nat.lt_of_lt_of_le hpos TpTimer.withdraw_queued_le)
    | cancelled wait c =>
      cases c with
      | true =>
        have hbelow := callback_below hreach hthread
        have hboth : share id Act.keeps _ + share id Act.keeps _ ≤ _ :=
          Stacks.weight_add_le_weigh hthread hbelow
        rw [share_act, share_act, hweigh] at hboth
        exact Nat.add_pos_right _ (Nat.add_pos_right _ (Nat.le_of_add_le_add_left hboth))
      | false =>
        have hmine := weight_le_share Act.hasWaited hthread
        have hstill := (still harms _ hreach (Nat.add_pos_right _ hmine)).2
        change 0 < (w.shared.timers id).queued at hpos
        rw [hstill.queued] at hpos
        cases hpos
    | keepAlive => exact Nat.add_pos_right _ (Nat.add_pos_left Nat.one_pos _)
    | release =>
      apply Nat.pos_of_ne_zero
      intro hlast
      have hcreated : (w.shared.timers id).created ≠ 0 := by
        intro hnone
        rw [(fresh _ hreach hnone).1] at hpos
        cases hpos
      have hledger := created_le_one id hreach
      have howners : owners w id = 1 := by
        rw [owners_eq, hweigh]
        change (w.shared.timers id).published.toNat + (0 + others) = 0 at hlast
        change (w.shared.timers id).published.toNat + (1 + others + _) = 1
        omega
      have hnone := (hguarded w _ hok).2 id (by rw [Stacks.runs_eq hthread]; rfl) howners
      rw [hnone] at hpos
      cases hpos
    | _ => exact ih hpos
  · intro w t' next hreach h ih hpos
    cases h with
    | expire harmed =>
      rw [Option.elim_none, Nat.zero_add]
      apply kept_of_armed harms hreach
      rw [harmed]
      simp
    | start hqueued => simpa [Act.keeps, Act.owns] using ih hqueued

/-- Whenever a callback starts, the entry it is given still has an owner. -/
theorem callback_owned (hw : system.Reach Guarded w) {s' : Shared} {fs : List Frame}
    (hstart : w.shared.arrive (.startCallback id) = some (s', fs)) :
    0 < owners ⟨s', w.threads ++ [fs]⟩ id := by
  have hboth : system.Reach (fun w l => Guarded w l ∧ ArmsFirst w l) w := by
    apply hw.of_steps
    intro w l hreach hok
    exact ⟨hok, armsFirst_of_handedOut (fun _ _ h => h.1) hreach⟩
  obtain ⟨tp, htp, hnext⟩ := Option.map_eq_some_iff.mp hstart
  obtain ⟨hqueued, rfl⟩ := TpTimer.of_start htp
  cases hnext
  have hkept := kept_of_queued (fun _ _ h => h.2) (fun _ _ h => h.1) hboth hqueued
  rw [owners_eq, Stacks.weigh_spawn]
  simp
  omega

/-- A periodic timer is due twice, and a thread of the pool begins its first callback. -/
def dueTwice : List Label :=
  [.spawn (.call (.schedulePeriodic 10))] ++ List.replicate 6 (.run 0 .go) ++
    [.spawn (.expire 1), .spawn (.expire 1), .spawn (.startCallback 1)] ++
    List.replicate 4 (.run 3 .go)

theorem callback_owned_dueTwice : ∃ (w : World) (s' : Shared) (fs : List Frame),
    w.shared.arrive (.startCallback 1) = some (s', fs) ∧ 0 < owners ⟨s', w.threads ++ [fs]⟩ 1 := by
  obtain ⟨w, hrun, htest⟩ := System.exists_of_runUnder system Guarded ⟨Shared.initial, []⟩
    dueTwice (fun w => (w.shared.arrive (.startCallback 1)).isSome) (by decide)
  have hw : system.Reach Guarded w := .of_runUnder (.init init_initial) hrun
  obtain ⟨⟨s', fs⟩, hstart⟩ := Option.isSome_iff_exists.mp htest
  exact ⟨w, s', fs, hstart, callback_owned hw hstart⟩

/-- The first callback cancels its own timer and leaves, and the second one starts. -/
theorem not_callback_owned : ¬ ∀ (w : World) (id : TimerId) (s' : Shared) (fs : List Frame),
    system.Reach HandedOut w → w.shared.arrive (.startCallback id) = some (s', fs) →
      0 < owners ⟨s', w.threads ++ [fs]⟩ id := by
  intro howned
  obtain ⟨w, hrun, htest⟩ := System.exists_of_runUnder system HandedOut ⟨Shared.initial, []⟩
    (dueTwice ++ [.run 3 ⟨true, some (.cancel 1), []⟩] ++ List.replicate 15 (.run 3 .go))
    (fun w => (w.shared.arrive (.startCallback 1)).any fun next =>
      owners ⟨next.1, w.threads ++ [next.2]⟩ 1 == 0) (by decide)
  have hw : system.Reach HandedOut w := .of_runUnder (.init init_initial) hrun
  obtain ⟨⟨s', fs⟩, hstart, hnone⟩ := (Option.any_eq_true _ _).mp htest
  have hpos := howned w 1 s' fs hw hstart
  rw [beq_iff_eq.mp hnone] at hpos
  cases hpos

end FastPort.Commons.TimerQueue
