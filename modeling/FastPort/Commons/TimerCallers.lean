import FastPort.Commons.TimerShutdown

/-! The callers of `Cancel`. Nobody has an id that `ScheduleImpl` has not returned, so
without a shutdown no cancellation comes upon an entry whose `ScheduleImpl` is in progress. -/
namespace FastPort.Commons.TimerQueue

open FastPort.Foundation.Pool FastPort.Foundation.Stack FastPort.Foundation.Tally
open FastPort.Foundation.ThreadpoolTimer FastPort.Foundation.Transition

variable {w : World} {id : TimerId}

/-- What a caller can call: `Cancel` gets an id that was returned, or none. -/
def ApiCall.Known (s : Shared) : ApiCall → Prop
  | scheduleOnce => True
  | schedulePeriodic _ => True
  | cancel id => id = kInvalidTimerId ∨ 0 < (s.timers id).returned
  | shutdown _ => False

def calls : Label → Option ApiCall
  | .run _ choice => choice.call
  | .spawn (.call call) => some call
  | .spawn _ => none

def KnowsIds (w : World) (l : Label) : Prop := ∀ call ∈ calls l, call.Known w.shared

theorem not_isShutdown_frame {s : Shared} {call : ApiCall} (h : call.Known s)
    (current : Option TimerId) : (call.frame current).isShutdown = false := by
  cases call with
  | shutdown wait => exact h.elim
  | _ => rfl

theorem not_isShutdown_exec {choice : Choice} {s : Shared} {f g : Frame}
    (hcall : ∀ call ∈ choice.call, call.Known s) (hf : f.isShutdown = false)
    (hg : g ∈ (f.exec choice s).2) : g.isShutdown = false := by
  cases follows hg with
  | call current hchoice => exact not_isShutdown_frame (hcall _ hchoice) current
  | shutdown => cases hf
  | _ => rfl

theorem not_isShutdown (hw : system.Reach KnowsIds w) :
    ∀ stack ∈ w.threads, ∀ f ∈ stack, f.isShutdown = false := by
  apply Program.forall_stack (p := program)
    (P := fun stack => ∀ f ∈ stack, f.isShutdown = false) ?_ ?_ hw
  · intro w tid choice f rest _ hok hstack g hg
    rcases List.mem_append.mp hg with hg | hg
    · exact not_isShutdown_exec hok (hstack f List.mem_cons_self) hg
    · exact hstack g (List.mem_cons_of_mem f hg)
  · intro w event s' fs _ hok harrived
    cases (arrived harrived).1 with
    | call call =>
      intro g hg
      rw [List.mem_singleton.mp hg]
      exact not_isShutdown_frame (hok call rfl) none
    | expire i => simp
    | startCallback i => simp [Frame.isShutdown]

def Act.cancels : Act → Nat
  | cancelImpl _ _ _ => 1
  | _ => 0

theorem share_cancels_frame {s : Shared} {call : ApiCall} {current : Option TimerId}
    (hknown : call.Known s) (hpos : 0 < share id Act.cancels (call.frame current)) :
    id = kInvalidTimerId ∨ 0 < (s.timers id).returned := by
  cases call with
  | cancel i =>
    by_cases hi : i = id
    · subst hi
      exact hknown
    · simp [ApiCall.frame, share, Frame.on, hi] at hpos
  | _ => cases hpos

theorem returned_le_exec (id : TimerId) (choice : Choice) (s : Shared) (f : Frame) :
    (s.timers id).returned ≤ ((f.exec choice s).1.timers id).returned := by
  have htouched := touched choice s f id
  generalize (f.exec choice s).1.timers id = t' at htouched ⊢
  generalize (f.exec choice s).2.filterMap (Frame.on id) = acts at htouched
  cases htouched with
  | step h => cases h <;> first | exact Nat.le_refl _ | exact Nat.le_succ _
  | _ => exact Nat.le_refl _

theorem returned_arrive {s s' : Shared} {event : Event} {fs : List Frame}
    (harrived : s.arrive event = some (s', fs)) :
    (s'.timers id).returned = (s.timers id).returned := by
  rcases occurred harrived id with ⟨next, hoccurred, -⟩ | ⟨hsame, -⟩
  · generalize s'.timers id = t' at hoccurred ⊢
    cases hoccurred <;> rfl
  · rw [hsame]

theorem share_eq_zero {weight : Act → Nat} {i : TimerId} {a : Act} (h : weight a = 0) :
    share id weight (.act i a) = 0 := by
  by_cases hi : i = id <;> simp [share, Frame.on, hi, h]

theorem returned_of_cancels (hw : system.Reach KnowsIds w)
    (hcancels : 0 < w.weigh (share id Act.cancels)) :
    id = kInvalidTimerId ∨ 0 < (w.shared.timers id).returned := by
  apply Program.focus (p := program) (fun s => s.timers id) (share id Act.cancels)
    (J := fun t n => 0 < n → id = kInvalidTimerId ∨ 0 < t.returned) ?_ ?_ ?_ hw hcancels
  · intro s _ hpos
    cases hpos
  · intro w tid choice f rest others hreach hok hthread _ ih
    change 0 < tally (share id Act.cancels) (f.exec choice w.shared).2 + others →
      id = kInvalidTimerId ∨ 0 < ((f.exec choice w.shared).1.timers id).returned
    intro hpos
    have hnot := not_isShutdown hreach _ (List.mem_of_getElem? hthread) f List.mem_cons_self
    have hbefore : id = kInvalidTimerId ∨ 0 < (w.shared.timers id).returned := by
      rcases Nat.eq_zero_or_pos others with hnone | hothers
      · rw [hnone, Nat.add_zero] at hpos
        obtain ⟨g, hg, hshare⟩ := exists_of_tally_pos hpos
        cases follows hg with
        | call current hcall => exact share_cancels_frame (hok _ hcall) hshare
        | shutdown => cases hnot
        | cancel => cases hnot
        | cancelImpl i wait own pc pc' hown =>
          apply ih
          by_cases hi : i = id
          · rw [hi, share_act]
            exact Nat.add_pos_left Nat.one_pos _
          · simp [share, Frame.on, hi] at hshare
        | allocate =>
          rw [share_eq_zero (by rfl)] at hshare
          cases hshare
        | scheduleImpl =>
          rw [share_eq_zero (by rfl)] at hshare
          cases hshare
        | runEntry =>
          rw [share_eq_zero (by rfl)] at hshare
          cases hshare
        | _ => cases hshare
      · exact ih (Nat.add_pos_right _ hothers)
    have hle := returned_le_exec id choice w.shared f
    exact hbefore.imp_right fun hreturned => Nat.lt_of_lt_of_le hreturned hle
  · intro w event s' fs _ hok harrived ih hpos
    rw [returned_arrive harrived]
    rcases Nat.eq_zero_or_pos (w.weigh (share id Act.cancels)) with hnone | hothers
    · rw [hnone, Nat.add_zero] at hpos
      cases (arrived harrived).1 with
      | call call => exact share_cancels_frame (hok call rfl) (by simpa using hpos)
      | expire i => cases hpos
      | startCallback i =>
        rw [tally_cons, share_eq_zero (by rfl)] at hpos
        cases hpos
    · exact ih hothers

theorem schedules_eq (a : Act) : a.schedules = a.creates + a.returnsId := by
  cases a with
  | scheduleImpl p i pc => cases pc <;> rfl
  | _ => rfl

theorem handedOut_of_knowsIds (hw : system.Reach KnowsIds w) : system.Reach HandedOut w := by
  apply hw.of_steps
  intro w l hreach _ id herases hpublished
  obtain ⟨f, hruns, herases⟩ := Option.bind_eq_some_iff.mp herases
  obtain ⟨tid, rest, hthread⟩ := Stacks.exists_thread_of_runs hruns
  have hact : ∃ wait own, f = .act id (.cancelImpl wait own .erase) := by
    unfold Frame.erases at herases
    split at herases
    · cases herases
      exact ⟨_, _, rfl⟩
    · cases herases
  obtain ⟨wait, own, rfl⟩ := hact
  have hmine := weight_le_share Act.cancels hthread
  have hreturned := (returned_of_cancels hreach hmine).resolve_left
    (lt_nextId_of_published hreach hpublished).2
  have hledger := returned_le id hreach
  have hcreated := created_le_one id hreach
  rw [show Act.schedules = fun a => a.creates + a.returnsId from funext schedules_eq,
    weigh_share_add]
  omega

end FastPort.Commons.TimerQueue
