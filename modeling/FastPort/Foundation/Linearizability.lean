import FastPort.Foundation.ReadersWriter
import Mathlib.Data.List.Nodup
import Mathlib.Data.Prod.Lex

/-! The calls of an object behind a readers-writer lock are linearizable, and none of them
waits for ever. -/
namespace FastPort.Foundation.ReadersWriter

open FastPort.Foundation.Pool FastPort.Foundation.Stack FastPort.Foundation.StepRules
open FastPort.Foundation.Tally FastPort.Foundation.Transition

variable {State Op Local Result Choice : Type} {m : Monitor State Op Local Result Choice}
variable {init : State}
variable {ok : Stacks (Shared State Op Result) (Frame Op Local Result) → Move Choice Op → Prop}
variable {w w' : Stacks (Shared State Op Result) (Frame Op Local Result)}
variable {s s' : Shared State Op Result} {f : Frame Op Local Result}
variable {fs : List (Frame Op Local Result)} {choice : Choice}

theorem pends_eq (id : Nat) (hw : (program m init).system.Reach ok w) :
    (w.shared.log.map Call.id).count id + w.weigh (Frame.pends id) =
      if id < w.shared.invoked.length then 1 else 0 := by
  apply known.balance (fun s => (s.log.map Call.id).count id)
    (fun s => if id < s.invoked.length then 1 else 0) (Frame.pends id) ?_ ?_ ?_ hw
  · rintro s rfl
    rfl
  · intro choice s f s' fs hmoves
    cases hmoves with
    | commits =>
      simp only [List.map_append, List.map_cons, List.map_nil, List.count_append,
        List.count_singleton, beq_iff_eq, tally_cons, tally_nil, Frame.pends]
      omega
    | _ => simp [Frame.pends, Nat.add_comm]
  · rintro s op s' fs ⟨⟩
    simp only [List.length_append, List.length_singleton, tally_cons, tally_nil, Frame.pends,
      Nat.lt_succ_iff_lt_or_eq]
    grind

def InTime (log : List (Call Op Result)) : Prop :=
  ∀ before call after, log = before ++ call :: after →
    ∀ id ∈ call.earlier, id ∈ before.map Call.id

theorem InTime.snoc {log : List (Call Op Result)} {call : Call Op Result} (h : InTime log)
    (hlast : ∀ id ∈ call.earlier, id ∈ log.map Call.id) : InTime (log ++ [call]) := by
  intro before other after heq
  rcases List.eq_nil_or_concat' after with rfl | ⟨after, last, rfl⟩
  · obtain ⟨rfl, hcall⟩ := List.append_inj' heq rfl
    cases hcall
    exact hlast
  · rw [← List.cons_append, ← List.append_assoc] at heq
    obtain ⟨hlog, -⟩ := List.append_inj' heq rfl
    exact h before other after hlog

def Answered (s : Shared State Op Result) (id : Nat) (result : Result) : Prop :=
  ∃ call ∈ s.log, call.id = id ∧ call.result = result

def Frame.Past (s : Shared State Op Result) : Frame Op Local Result → Prop
  | acquire id earlier op | inside id earlier op _ =>
      s.invoked[id]? = some op ∧ ∀ i ∈ earlier, i ∈ s.log.map Call.id
  | release id _ result => Answered s id result

structure Record (s : Shared State Op Result) : Prop where
  inTime : InTime s.log
  made : ∀ call ∈ s.log, s.invoked[call.id]? = some call.op
  answered : ∀ r ∈ s.returned, Answered s r.1 r.2

theorem Record.ids (h : Record s) : ∀ id ∈ s.returned.map Prod.fst, id ∈ s.log.map Call.id := by
  intro id hid
  obtain ⟨r, hr, rfl⟩ := List.mem_map.mp hid
  obtain ⟨call, hcall, hid, -⟩ := h.answered r hr
  exact List.mem_map.mpr ⟨call, hcall, hid⟩

structure Grows (s s' : Shared State Op Result) : Prop where
  invoked : s.invoked <+: s'.invoked
  log : s.log <+: s'.log

theorem Frame.Moves.grows (hmoves : f.Moves m choice s s' fs) : Grows s s' := by
  cases hmoves with
  | commits => exact ⟨List.prefix_refl _, List.prefix_append _ _⟩
  | _ => exact ⟨List.prefix_refl _, List.prefix_refl _⟩

theorem Grows.answered (hgrows : Grows s s') {id : Nat} {result : Result}
    (h : Answered s id result) : Answered s' id result := by
  obtain ⟨call, hcall, heq⟩ := h
  exact ⟨call, hgrows.log.subset hcall, heq⟩

theorem Grows.made (hgrows : Grows s s') {id : Nat} {op : Op}
    (h : s.invoked[id]? = some op) : s'.invoked[id]? = some op := by
  obtain ⟨more, hmore⟩ := hgrows.invoked
  obtain ⟨hlt, -⟩ := List.getElem?_eq_some_iff.mp h
  rw [← hmore, List.getElem?_append_left hlt]
  exact h

theorem Grows.past (hgrows : Grows s s') (h : f.Past s) : f.Past s' := by
  have hlog : ∀ i ∈ s.log.map Call.id, i ∈ s'.log.map Call.id := fun i hi =>
    List.map_subset Call.id hgrows.log.subset hi
  cases f with
  | acquire | inside => exact ⟨hgrows.made h.1, fun i hi => hlog i (h.2 i hi)⟩
  | release => exact hgrows.answered h

theorem Frame.Moves.past (hmoves : f.Moves m choice s s' fs) (h : f.Past s) (hr : Record s) :
    Record s' ∧ ∀ g ∈ fs, g.Past s' := by
  cases hmoves with
  | @commits id earlier op l state result hstep =>
    have hlast : Answered { s with state := state, log := s.log ++ [⟨id, earlier, op, result⟩] }
        id result := ⟨_, List.mem_append_right _ (List.mem_singleton_self _), rfl, rfl⟩
    refine ⟨⟨hr.inTime.snoc h.2, fun call hcall => ?_, fun r hr' => ?_⟩, fun g hg => ?_⟩
    · rcases List.mem_append.mp hcall with hcall | hcall
      · exact hr.made call hcall
      · obtain rfl := List.mem_singleton.mp hcall
        exact h.1
    · obtain ⟨call, hcall, heq⟩ := hr.answered r hr'
      exact ⟨call, List.mem_append_left _ hcall, heq⟩
    · obtain rfl := List.mem_singleton.mp hg
      exact hlast
  | unlocks | unshares =>
    refine ⟨⟨hr.inTime, hr.made, fun r hr' => ?_⟩, by simp⟩
    rcases List.mem_append.mp hr' with hr' | hr'
    · exact hr.answered r hr'
    · obtain rfl := List.mem_singleton.mp hr'
      exact h
  | waits | locks | shares | goesOn =>
    refine ⟨⟨hr.inTime, hr.made, hr.answered⟩, fun g hg => ?_⟩
    obtain rfl := List.mem_singleton.mp hg
    exact h

theorem past (hw : (program m init).system.Reach ok w) :
    Record w.shared ∧ ∀ stack ∈ w.threads, ∀ f ∈ stack, Frame.Past w.shared f := by
  apply Program.invariant (I := fun w => Record w.shared ∧ ∀ stack ∈ w.threads, ∀ f ∈ stack,
    Frame.Past w.shared f) ?_ ?_ ?_ hw
  · rintro s rfl
    refine ⟨⟨fun before call after heq => ?_, fun call hcall => ?_, fun r hr => ?_⟩, ?_⟩
    · simp [Shared.initial] at heq
    · cases hcall
    · cases hr
    · intro stack hstack
      cases hstack
  · intro w tid choice f rest _ ih _ hthread
    have hmoves : f.Moves m choice w.shared _ _ := f.moves_exec m choice w.shared
    obtain ⟨hrecord, hnew⟩ := hmoves.past
      (ih.2 _ (List.mem_of_getElem? hthread) f List.mem_cons_self) ih.1
    refine ⟨hrecord, fun stack hstack g hg => ?_⟩
    rcases Stacks.mem_new_or_old hthread hstack hg with hg | ⟨old, hold, hgold⟩
    · exact hnew g hg
    · exact hmoves.grows.past (ih.2 old hold g hgold)
  · rintro w op s' fs _ ih _ ⟨⟩
    have hgrows : Grows w.shared { w.shared with invoked := w.shared.invoked ++ [op] } :=
      ⟨List.prefix_append _ _, List.prefix_refl _⟩
    refine ⟨⟨ih.1.inTime, fun call hcall => hgrows.made (ih.1.made call hcall),
      ih.1.answered⟩, fun stack hstack g hg => ?_⟩
    rcases List.mem_append.mp hstack with hstack | hstack
    · exact hgrows.past (ih.2 stack hstack g hg)
    · obtain rfl := List.mem_singleton.mp hstack
      obtain rfl := List.mem_singleton.mp hg
      exact ⟨by simp, ih.1.ids⟩

def GoesOn (m : Monitor State Op Local Result Choice) (init : State)
    (w w' : Stacks (Shared State Op Result) (Frame Op Local Result)) : Prop :=
  Rest.GoesOn (program m init) (fun _ => False) (fun _ => True) w w'

def AtRest (m : Monitor State Op Local Result Choice) (init : State)
    (w : Stacks (Shared State Op Result) (Frame Op Local Result)) : Prop :=
  Rest.AtRest (program m init) (fun _ => False) (fun _ => True) w

def Frame.queued : Frame Op Local Result → Nat
  | acquire _ _ _ => 1
  | _ => 0

def Frame.effort (m : Monitor State Op Local Result Choice) (state : State) :
    Frame Op Local Result → Nat
  | acquire _ _ _ => 0
  | inside _ _ op l => m.left op state l + 2
  | release _ _ _ => 1

def rank (m : Monitor State Op Local Result Choice)
    (w : Stacks (Shared State Op Result) (Frame Op Local Result)) : Nat × Nat :=
  (w.weigh Frame.queued, w.weigh (Frame.effort m w.shared.state))

theorem Frame.effort_eq (hwrites : f.writes m = 0) (hshares : f.shares m = 0)
    (state state' : State) : f.effort m state = f.effort m state' := by
  cases f with
  | acquire | release => rfl
  | inside id earlier op l =>
    cases hexclusive : m.exclusive op with
    | true => simp [writes, hexclusive] at hwrites
    | false => simp [shares, hexclusive] at hshares

theorem Frame.Moves.falls (hmoves : f.Moves m choice s s' fs) (hmoved : (s', fs) ≠ (s, [f])) :
    (tally queued fs < f.queued ∧ s'.state = s.state) ∨
      (tally queued fs = f.queued ∧ tally (effort m s'.state) fs < f.effort m s.state) := by
  cases hmoves with
  | waits => exact absurd rfl hmoved
  | locks | shares => exact .inl ⟨Nat.one_pos, rfl⟩
  | goesOn hstep =>
    have hlt := m.falls hstep
    refine .inr ⟨rfl, ?_⟩
    simp only [tally_cons, tally_nil, effort]
    omega
  | commits | unlocks | unshares =>
    refine .inr ⟨rfl, ?_⟩
    simp only [tally_cons, tally_nil, effort]
    omega

theorem falls_goesOn (hw : (program m init).system.Reach ok w) (hgoes : GoesOn m init w w') :
    Prod.Lex (· < ·) (· < ·) (rank m w') (rank m w) := by
  cases Rest.GoesOn.goes hgoes with
  | arrive hown => exact hown.elim
  | @exec tid choice f rest _ hthread hmoved =>
    have hmoves : f.Moves m choice w.shared (f.exec m choice w.shared).1
      (f.exec m choice w.shared).2 := f.moves_exec m choice w.shared
    change Prod.Lex (· < ·) (· < ·) (rank m ⟨(f.exec m choice w.shared).1,
      w.threads.set tid ((f.exec m choice w.shared).2 ++ rest)⟩) (rank m w)
    have hfalls := hmoves.falls hmoved
    have hread := reading hw _ (List.mem_of_getElem? hthread) f List.mem_cons_self
    have hstate := (hmoves.reading hread).1
    generalize (f.exec m choice w.shared).1 = s' at hfalls hstate ⊢
    generalize (f.exec m choice w.shared).2 = fs at hfalls ⊢
    have hwaits := Stacks.weigh_exec Frame.queued hthread s' fs
    have heffort := Stacks.weigh_exec (Frame.effort m s'.state) hthread s' fs
    have hbefore := Stacks.weigh_rest (Frame.effort m w.shared.state) hthread
    have hafter := Stacks.weigh_rest (Frame.effort m s'.state) hthread
    -- the others are not inside, or the state is what it was
    have hothers : Stacks.weigh ⟨w.shared, w.threads.set tid rest⟩ (Frame.effort m s'.state) =
        Stacks.weigh ⟨w.shared, w.threads.set tid rest⟩ (Frame.effort m w.shared.state) := by
      apply Stacks.weigh_congr
      intro stack hstack g hg
      rcases hstate with hsame | hpos
      · rw [hsame]
      · obtain ⟨hwrites, hshares⟩ := alone_of_writes hw hthread hpos stack hstack g hg
        exact g.effort_eq hwrites hshares _ _
    rcases hfalls with ⟨hlt, -⟩ | ⟨heq, hlt⟩
    · refine Prod.lex_def.mpr (.inl ?_)
      simp only [rank]
      omega
    · refine Prod.lex_def.mpr (.inr ⟨?_, ?_⟩)
      · simp only [rank]
        omega
      · simp only [rank]
        omega

theorem acc_goesOn (hw : (program m init).system.Reach System.free w) :
    Acc (fun w'' w' => GoesOn m init w' w'') w :=
  System.acc_of_falls (Prod.lex Nat.lt_wfRel Nat.lt_wfRel).wf (rank m)
    (fun _ _ hreach hgoes => Rest.GoesOn.reach hreach hgoes (fun _ hown => hown.elim)
      fun _ _ => trivial) (fun _ _ hreach hgoes => falls_goesOn hreach hgoes) hw

theorem length_stack_le (hw : (program m init).system.Reach ok w) :
    ∀ stack ∈ w.threads, stack.length ≤ 1 := by
  apply known.forall_stack (P := fun stack => stack.length ≤ 1) ?_ ?_ hw
  · intro choice s f s' fs rest hmoves h
    obtain rfl : rest = [] := List.length_eq_zero_iff.mp (by simpa using h)
    cases hmoves <;> simp
  · rintro s op s' fs ⟨⟩
    simp

/-- At rest all calls have returned: who waits for the lock waits for somebody who is
inside. -/
theorem AtRest.returned [Inhabited Choice] (h : AtRest m init w)
    (hw : (program m init).system.Reach ok w) : ∀ stack ∈ w.threads, stack = [] := by
  have hblocked : ∀ stack ∈ w.threads, ∀ f ∈ stack, Frame.queued f = 1 ∧
      (w.shared.writer = true ∨ w.shared.readers ≠ 0) := by
    refine known.forall_frame_atRest h default trivial ?_ (length_stack_le hw)
    intro f s' fs hmoves hsame hframes
    cases hmoves with
    | waits hheld => exact ⟨rfl, hheld⟩
    | goesOn hstep =>
      cases hframes
      have hlt := m.falls hstep
      rw [← hsame] at hlt
      exact absurd hlt (Nat.lt_irrefl _)
    | _ => cases hframes
  have hnone : ∀ stack ∈ w.threads, ∀ f ∈ stack, f.writes m = 0 ∧ f.shares m = 0 := by
    intro stack hstack f hf
    obtain ⟨hwaits, -⟩ := hblocked stack hstack f hf
    cases f with
    | acquire => exact ⟨rfl, rfl⟩
    | inside | release => cases hwaits
  have hwriter := writer_eq hw
  have hreaders := readers_eq hw
  rw [Stacks.weigh_eq_zero.mpr fun stack hstack f hf => (hnone stack hstack f hf).1] at hwriter
  rw [Stacks.weigh_eq_zero.mpr fun stack hstack f hf => (hnone stack hstack f hf).2] at hreaders
  intro stack hstack
  refine List.eq_nil_iff_forall_not_mem.mpr fun f hf => ?_
  rcases (hblocked stack hstack f hf).2 with hheld | hheld
  · rw [hheld] at hwriter
    cases hwriter
  · exact hheld hreaders.symm

/-- The calls that have taken effect are those of a sequential run, in which each call that
was made comes at most once, behind all that had returned before it was made; a call that
has returned has the result that it has there. Left to themselves the calls come to rest,
and at rest all have returned. -/
structure Linearizable {Abstract : Type} (m : Monitor State Op Local Result Choice)
    (init : State) (R : Op → Abstract → Abstract → Result → Prop) (start : Abstract)
    (w : Stacks (Shared State Op Result) (Frame Op Local Result)) : Prop where
  sequential : ∃ a, Sequential R start w.shared.log a
  made : ∀ call ∈ w.shared.log, w.shared.invoked[call.id]? = some call.op
  once : (w.shared.log.map Call.id).Nodup
  inTime : InTime w.shared.log
  answered : ∀ r ∈ w.shared.returned, Answered w.shared r.1 r.2
  comesToRest : Acc (fun w'' w' => GoesOn m init w' w'') w
  atRest : AtRest m init w → ∀ stack ∈ w.threads, stack = []

theorem linearizable [Inhabited Choice] {Abstract : Type}
    {R : Op → Abstract → Abstract → Result → Prop} (abstract : State → Abstract)
    (h : ∀ op s s' result, Runs m op s s' result → R op (abstract s) (abstract s') result)
    (hw : (program m init).system.Reach System.free w) :
    Linearizable m init R (abstract init) w where
  sequential := by
    obtain ⟨s, hs⟩ := (staged hw).shared_holds
      (P := fun s => ∃ state, Sequential (Runs m) init s.log state) (fun _ h => h.sequential)
      fun h => ⟨_, h⟩
    exact ⟨abstract s, hs.map abstract h⟩
  made := (past hw).1.made
  once := by
    refine List.nodup_iff_count_le_one.mpr fun id => ?_
    have heq := pends_eq id hw
    split at heq <;> omega
  inTime := (past hw).1.inTime
  answered := (past hw).1.answered
  comesToRest := acc_goesOn hw
  atRest h := h.returned hw

end FastPort.Foundation.ReadersWriter
