import FastPort.Foundation.StepRules

/-! Objects behind a readers-writer lock. A call acquires the lock, shared or exclusive, takes
any number of steps on the object, releases the lock and returns. Whatever the threads do,
the calls have the results of a sequential order in which each of them takes effect at one
moment between its invocation and its return. -/
namespace FastPort.Foundation.ReadersWriter

open FastPort.Foundation.Pool FastPort.Foundation.Stack FastPort.Foundation.StepRules
open FastPort.Foundation.Tally FastPort.Foundation.Transition

structure Monitor (State Op Local Result Choice : Type) where
  exclusive : Op → Bool
  enter : Op → Local
  step : Choice → Op → State → Local → State × (Local ⊕ Result)
  left : Op → State → Local → Nat
  reads : ∀ choice op s l, exclusive op = false → (step choice op s l).1 = s
  falls : ∀ {choice op s s' l l'}, step choice op s l = (s', .inl l') → left op s' l' < left op s l

variable {State Op Local Result Choice : Type} (m : Monitor State Op Local Result Choice)

inductive Steps (op : Op) (s : State) : State → Local → Prop where
  | enter : Steps op s s (m.enter op)
  | step {s' s'' : State} {l l' : Local} (choice : Choice) (h : Steps op s s' l)
      (hstep : m.step choice op s' l = (s'', .inl l')) : Steps op s s'' l'

def Runs (op : Op) (s s' : State) (result : Result) : Prop :=
  ∃ t l choice, Steps m op s t l ∧ m.step choice op t l = (s', .inr result)

structure Call (Op Result : Type) where
  id : Nat
  earlier : List Nat
  op : Op
  result : Result

/-- One call after the other, each of which relates the states before and behind it. -/
inductive Sequential (R : Op → State → State → Result → Prop) (init : State) :
    List (Call Op Result) → State → Prop where
  | nil : Sequential R init [] init
  | snoc {log : List (Call Op Result)} {s s' : State} {call : Call Op Result}
      (h : Sequential R init log s) (hcall : R call.op s s' call.result) :
      Sequential R init (log ++ [call]) s'

theorem Sequential.map {Abstract : Type} {R : Op → State → State → Result → Prop}
    {R' : Op → Abstract → Abstract → Result → Prop} (abstract : State → Abstract)
    (h : ∀ op s s' result, R op s s' result → R' op (abstract s) (abstract s') result)
    {init s : State} {log : List (Call Op Result)} (hlog : Sequential R init log s) :
    Sequential R' (abstract init) log (abstract s) := by
  induction hlog with
  | nil => exact .nil
  | snoc _ hcall ih => exact ih.snoc (h _ _ _ _ hcall)

/-- The object and the lock. The rest is history: the calls that have been made, those that
have taken effect, and those that have returned. -/
structure Shared (State Op Result : Type) where
  state : State
  readers : Nat
  writer : Bool
  invoked : List Op
  log : List (Call Op Result)
  returned : List (Nat × Result)

def Shared.initial (init : State) : Shared State Op Result := ⟨init, 0, false, [], [], []⟩

inductive Frame (Op Local Result : Type) where
  | acquire (id : Nat) (earlier : List Nat) (op : Op)
  | inside (id : Nat) (earlier : List Nat) (op : Op) (l : Local)
  | release (id : Nat) (op : Op) (result : Result)

def acquire (s : Shared State Op Result) (id : Nat) (earlier : List Nat) (op : Op) :
    Shared State Op Result × List (Frame Op Local Result) :=
  if s.writer || (m.exclusive op && s.readers != 0) then (s, [.acquire id earlier op])
  else if m.exclusive op then
    ({ s with writer := true }, [.inside id earlier op (m.enter op)])
  else ({ s with readers := s.readers + 1 }, [.inside id earlier op (m.enter op)])

def inside (choice : Choice) (s : Shared State Op Result) (id : Nat) (earlier : List Nat)
    (op : Op) (l : Local) : Shared State Op Result × List (Frame Op Local Result) :=
  match m.step choice op s.state l with
  | (state, .inl l') => ({ s with state := state }, [.inside id earlier op l'])
  | (state, .inr result) =>
      ({ s with state := state, log := s.log ++ [⟨id, earlier, op, result⟩] },
        [.release id op result])

def release (s : Shared State Op Result) (id : Nat) (op : Op) (result : Result) :
    Shared State Op Result :=
  if m.exclusive op then { s with writer := false, returned := s.returned ++ [(id, result)] }
  else { s with readers := s.readers - 1, returned := s.returned ++ [(id, result)] }

def Frame.exec (choice : Choice) (s : Shared State Op Result) :
    Frame Op Local Result → Shared State Op Result × List (Frame Op Local Result)
  | acquire id earlier op => ReadersWriter.acquire m s id earlier op
  | inside id earlier op l => ReadersWriter.inside m choice s id earlier op l
  | release id op result => (ReadersWriter.release m s id op result, [])

def Shared.invoke (s : Shared State Op Result) (op : Op) :
    Shared State Op Result × List (Frame Op Local Result) :=
  ({ s with invoked := s.invoked ++ [op] },
    [.acquire s.invoked.length (s.returned.map Prod.fst) op])

def program (init : State) :
    Program (Shared State Op Result) (Frame Op Local Result) Choice Op where
  start s := s = .initial init
  exec choice s f := f.exec m choice s
  arrive op s := some (s.invoke op)

inductive Frame.Moves (choice : Choice) (s : Shared State Op Result) :
    Frame Op Local Result → Shared State Op Result → List (Frame Op Local Result) → Prop where
  | waits {id : Nat} {earlier : List Nat} {op : Op} (hheld : s.writer = true ∨ s.readers ≠ 0) :
      Moves choice s (.acquire id earlier op) s [.acquire id earlier op]
  | locks {id : Nat} {earlier : List Nat} {op : Op} (hexclusive : m.exclusive op = true)
      (hwriter : s.writer = false) (hreaders : s.readers = 0) :
      Moves choice s (.acquire id earlier op) { s with writer := true }
        [.inside id earlier op (m.enter op)]
  | shares {id : Nat} {earlier : List Nat} {op : Op} (hshared : m.exclusive op = false)
      (hwriter : s.writer = false) :
      Moves choice s (.acquire id earlier op) { s with readers := s.readers + 1 }
        [.inside id earlier op (m.enter op)]
  | goesOn {id : Nat} {earlier : List Nat} {op : Op} {l l' : Local} {state : State}
      (hstep : m.step choice op s.state l = (state, .inl l')) :
      Moves choice s (.inside id earlier op l) { s with state := state }
        [.inside id earlier op l']
  | commits {id : Nat} {earlier : List Nat} {op : Op} {l : Local} {state : State}
      {result : Result} (hstep : m.step choice op s.state l = (state, .inr result)) :
      Moves choice s (.inside id earlier op l)
        { s with state := state, log := s.log ++ [⟨id, earlier, op, result⟩] }
        [.release id op result]
  | unlocks {id : Nat} {op : Op} {result : Result} (hexclusive : m.exclusive op = true) :
      Moves choice s (.release id op result)
        { s with writer := false, returned := s.returned ++ [(id, result)] } []
  | unshares {id : Nat} {op : Op} {result : Result} (hshared : m.exclusive op = false) :
      Moves choice s (.release id op result)
        { s with readers := s.readers - 1, returned := s.returned ++ [(id, result)] } []

theorem Frame.moves_exec (f : Frame Op Local Result) (choice : Choice)
    (s : Shared State Op Result) :
    f.Moves m choice s (f.exec m choice s).1 (f.exec m choice s).2 := by
  cases f with
  | acquire id earlier op =>
    simp only [exec, ReadersWriter.acquire]
    split
    · rename_i hheld
      refine .waits ?_
      simp only [Bool.or_eq_true, Bool.and_eq_true, bne_iff_ne] at hheld
      exact hheld.imp_right And.right
    · rename_i hfree
      simp only [Bool.or_eq_true, Bool.and_eq_true, bne_iff_ne, not_or, not_and, not_not,
        Bool.not_eq_true] at hfree
      split
      · rename_i hexclusive
        exact .locks hexclusive hfree.1 (hfree.2 hexclusive)
      · rename_i hshared
        exact .shares (Bool.eq_false_iff.mpr hshared) hfree.1
  | inside id earlier op l =>
    simp only [exec, ReadersWriter.inside]
    split
    · rename_i hstep
      exact .goesOn hstep
    · rename_i hstep
      exact .commits hstep
  | release id op result =>
    simp only [exec, ReadersWriter.release]
    split
    · rename_i hexclusive
      exact .unlocks hexclusive
    · rename_i hshared
      exact .unshares (Bool.eq_false_iff.mpr hshared)

def Frame.writes : Frame Op Local Result → Nat
  | inside _ _ op _ | release _ op _ => (m.exclusive op).toNat
  | acquire _ _ _ => 0

def Frame.shares : Frame Op Local Result → Nat
  | inside _ _ op _ | release _ op _ => (!m.exclusive op).toNat
  | acquire _ _ _ => 0

def Frame.pends (id : Nat) : Frame Op Local Result → Nat
  | acquire i _ _ | inside i _ _ _ => if i = id then 1 else 0
  | release _ _ _ => 0

variable {m} {init : State}
variable {ok : Stacks (Shared State Op Result) (Frame Op Local Result) → Move Choice Op → Prop}
variable {w : Stacks (Shared State Op Result) (Frame Op Local Result)}
variable {s s' : Shared State Op Result} {f : Frame Op Local Result}
variable {fs : List (Frame Op Local Result)} {choice : Choice}

theorem known : Known (program m init) (Frame.Moves m)
    fun s op s' fs => s.invoke op = (s', fs) where
  exec choice s f := f.moves_exec m choice s
  arrive := Option.some.inj

theorem writer_eq (hw : (program m init).system.Reach ok w) :
    w.weigh (Frame.writes m) = w.shared.writer.toNat := by
  apply known.flag (·.writer) (Frame.writes m) ?_ ?_ ?_ hw
  · rintro s rfl
    rfl
  · intro choice s f s' fs hmoves hwriter
    cases hmoves with
    | locks hexclusive hfree => simp [Frame.writes, hexclusive, hfree]
    | shares hshared | unshares hshared => simp [Frame.writes, hshared]
    | unlocks hexclusive =>
      have hheld := hwriter (by simp [Frame.writes, hexclusive])
      simp [Frame.writes, hexclusive, hheld]
    | _ => simp [Frame.writes, Nat.add_comm]
  · rintro s op s' fs ⟨⟩
    simp [Frame.writes]

theorem readers_eq (hw : (program m init).system.Reach ok w) :
    w.weigh (Frame.shares m) = w.shared.readers := by
  apply known.total (·.readers) (Frame.shares m) ?_ ?_ ?_ hw
  · rintro s rfl
    rfl
  · intro choice s f s' fs hmoves hle
    cases hmoves with
    | locks hexclusive | unlocks hexclusive => simp [Frame.shares, hexclusive]
    | shares hshared => simp [Frame.shares, hshared, Nat.add_comm]
    | unshares hshared =>
      simp only [Frame.shares, hshared, Bool.not_false, Bool.toNat_true, tally_nil] at hle ⊢
      omega
    | _ => simp [Frame.shares, Nat.add_comm]
  · rintro s op s' fs ⟨⟩
    simp [Frame.shares]

theorem readers_of_writer (hw : (program m init).system.Reach ok w)
    (hwriter : w.shared.writer = true) : w.shared.readers = 0 := by
  apply known.holds (I := fun s => s.writer = true → s.readers = 0) ?_ ?_ ?_ hw hwriter
  · rintro s rfl _
    rfl
  · intro choice s f s' fs hmoves ih
    cases hmoves with
    | locks _ _ hreaders => exact fun _ => hreaders
    | shares _ hfree => exact fun hwriter => absurd (hfree.symm.trans hwriter) (by decide)
    | unlocks => exact fun hwriter => by cases hwriter
    | unshares =>
      intro hwriter
      simp [ih hwriter]
    | _ => exact ih
  · rintro s op s' fs ⟨⟩ ih
    exact ih

def Frame.Reading (m : Monitor State Op Local Result Choice) (state : State) :
    Frame Op Local Result → Prop
  | inside _ _ op l => m.exclusive op = false → Steps m op state state l
  | _ => True

theorem alone_of_writes (hw : (program m init).system.Reach ok w) {tid : Nat}
    {rest : List (Frame Op Local Result)} (hthread : w.threads[tid]? = some (f :: rest))
    (hpos : 0 < f.writes m) : ∀ stack ∈ w.threads.set tid rest, ∀ g ∈ stack,
      g.writes m = 0 ∧ g.shares m = 0 := by
  have hwriter := writer_eq hw
  have hreaders := readers_eq hw
  have hle : f.writes m ≤ w.weigh (Frame.writes m) := Stacks.weight_le_weigh hthread
  have htoNat := Bool.toNat_le w.shared.writer
  have hheld : w.shared.writer = true := by
    cases hwrites : w.shared.writer with
    | true => rfl
    | false =>
      rw [hwrites, Bool.toNat_false] at hwriter
      omega
  rw [readers_of_writer hw hheld] at hreaders
  have hwrites := Stacks.weigh_rest (Frame.writes m) hthread
  have hshares := Stacks.weigh_rest (Frame.shares m) hthread
  have hnone : Stacks.weigh ⟨w.shared, w.threads.set tid rest⟩ (Frame.writes m) = 0 := by omega
  have hnone' : Stacks.weigh ⟨w.shared, w.threads.set tid rest⟩ (Frame.shares m) = 0 := by omega
  exact fun stack hstack g hg => ⟨Stacks.weigh_eq_zero.mp hnone stack hstack g hg,
    Stacks.weigh_eq_zero.mp hnone' stack hstack g hg⟩

theorem Frame.Moves.reading (hmoves : f.Moves m choice s s' fs)
    (h : f.Reading m s.state) : (s'.state = s.state ∨ 0 < f.writes m) ∧
      ∀ g ∈ fs, g.Reading m s'.state := by
  cases hmoves with
  | @goesOn id earlier op l l' state hstep =>
    cases hexclusive : m.exclusive op with
    | true =>
      refine ⟨.inr (by simp [writes, hexclusive]), fun g hg => ?_⟩
      obtain rfl := List.mem_singleton.mp hg
      exact fun hshared => absurd (hexclusive.symm.trans hshared) (by decide)
    | false =>
      obtain rfl : state = s.state := by
        rw [← m.reads choice op s.state l hexclusive, hstep]
      refine ⟨.inl rfl, fun g hg => ?_⟩
      obtain rfl := List.mem_singleton.mp hg
      exact fun hshared => .step choice (h hshared) hstep
  | @commits id earlier op l state result hstep =>
    refine ⟨?_, fun g hg => ?_⟩
    · cases hexclusive : m.exclusive op with
      | true => exact .inr (by simp [writes, hexclusive])
      | false => exact .inl (by rw [← m.reads choice op s.state l hexclusive, hstep])
    · obtain rfl := List.mem_singleton.mp hg
      trivial
  | waits | unlocks | unshares => exact ⟨.inl rfl, by simp [Reading]⟩
  | locks hexclusive =>
    refine ⟨.inl rfl, fun g hg => ?_⟩
    obtain rfl := List.mem_singleton.mp hg
    exact fun hshared => absurd (hexclusive.symm.trans hshared) (by decide)
  | shares hshared =>
    refine ⟨.inl rfl, fun g hg => ?_⟩
    obtain rfl := List.mem_singleton.mp hg
    exact fun _ => .enter

theorem reading (hw : (program m init).system.Reach ok w) :
    ∀ stack ∈ w.threads, ∀ f ∈ stack, f.Reading m w.shared.state := by
  apply Program.invariant (I := fun w => ∀ stack ∈ w.threads, ∀ f ∈ stack,
    Frame.Reading m w.shared.state f) ?_ ?_ ?_ hw
  · intro s _ stack hstack
    cases hstack
  · intro w tid choice f rest hreach ih _ hthread stack hstack g hg
    have hmoves : f.Moves m choice w.shared _ _ := f.moves_exec m choice w.shared
    obtain ⟨hstate, hnew⟩ := hmoves.reading
      (ih _ (List.mem_of_getElem? hthread) f List.mem_cons_self)
    rcases hstate with hsame | hpos
    · rcases Stacks.mem_new_or_old hthread hstack hg with hg | ⟨old, hold, hgold⟩
      · exact hnew g hg
      · have hread := ih old hold g hgold
        rwa [← hsame] at hread
    · rcases Stacks.mem_frames_exec hthread hstack hg with hg | ⟨old, hold, hgold⟩
      · exact hnew g hg
      · obtain ⟨-, hshares⟩ := alone_of_writes hreach hthread hpos old hold g hgold
        cases g with
        | inside id earlier op l =>
          intro hshared
          simp [Frame.shares, hshared] at hshares
        | _ => trivial
  · rintro w op s' fs _ ih _ ⟨⟩ stack hstack g hg
    rcases List.mem_append.mp hstack with hstack | hstack
    · exact ih stack hstack g hg
    · obtain rfl := List.mem_singleton.mp hstack
      obtain rfl := List.mem_singleton.mp hg
      trivial

/-- What has taken effect is a sequence of calls in one piece, and a writer works on the
state that it leaves. -/
def Stage (m : Monitor State Op Local Result Choice) (init : State)
    (s : Shared State Op Result) : Frame Op Local Result → Prop
  | .acquire _ _ _ => False
  | .inside _ _ op l =>
      s.writer = true ∧ ∃ c, Sequential (Runs m) init s.log c ∧ Steps m op c s.state l
  | .release _ _ _ => s.writer = true ∧ Sequential (Runs m) init s.log s.state

def Idle (m : Monitor State Op Local Result Choice) (init : State)
    (s : Shared State Op Result) : Prop := Sequential (Runs m) init s.log s.state

theorem Frame.Moves.writes (hmoves : f.Moves m choice s s' fs) (hpos : 0 < f.writes m)
    (h : Stage m init s f) :
    Stacks.Settled (Frame.writes m) (Stage m init) (Idle m init) s' fs := by
  cases hmoves with
  | waits | locks | shares => cases hpos
  | goesOn hstep =>
    obtain ⟨hwriter, c, hlog, hsteps⟩ := h
    exact .cons ⟨hwriter, c, hlog, .step choice hsteps hstep⟩ hpos rfl
  | commits hstep =>
    obtain ⟨hwriter, c, hlog, hsteps⟩ := h
    exact .cons ⟨hwriter, hlog.snoc ⟨_, _, choice, hsteps, hstep⟩⟩ hpos rfl
  | unlocks => exact .of_idle h.2 rfl
  | unshares hshared => simp [Frame.writes, hshared] at hpos

theorem Stage.congr (h : Stage m init s f) (hwriter : s'.writer = s.writer)
    (hlog : s'.log = s.log) (hstate : s'.state = s.state) : Stage m init s' f := by
  cases f with
  | acquire => exact h.elim
  | inside id earlier op l =>
    rw [Stage, hwriter, hlog, hstate]
    exact h
  | release id op result =>
    rw [Stage, hwriter, hlog, hstate]
    exact h

theorem Stage.writer (h : Stage m init s f) : s.writer = true := by
  cases f with
  | acquire => exact h.elim
  | inside | release => exact h.1

theorem staged (hw : (program m init).system.Reach ok w) :
    Stacks.Staged (Frame.writes m) (Stage m init) (Idle m init) w := by
  apply known.staged ?_ ?_ ?_ ?_ ?_ hw
  · intro w hw
    have hle := Bool.toNat_le w.shared.writer
    rwa [← writer_eq hw] at hle
  · rintro s rfl
    exact .nil
  · intro w choice f s' fs _ hmoves hpos h
    exact hmoves.writes hpos h
  · intro w tid choice f rest s' fs hreach hthread hmoves hzero
    have hread := reading hreach _ (List.mem_of_getElem? hthread) f List.mem_cons_self
    cases hmoves with
    | waits => exact ⟨fun _ _ h => h, fun h => .of_idle h rfl⟩
    | locks hexclusive hfree =>
      refine ⟨fun g _ h => absurd (hfree.symm.trans h.writer) (by decide), fun h => ?_⟩
      exact .cons ⟨rfl, _, h, .enter⟩ (by simp [Frame.writes, hexclusive]) rfl
    | shares hshared =>
      refine ⟨fun g _ h => h.congr rfl rfl rfl, fun h => .of_idle h ?_⟩
      simp [Frame.writes, hshared]
    | @goesOn id earlier op l l' state hstep =>
      have hshared : m.exclusive op = false := by simpa [Frame.writes] using hzero
      obtain rfl : state = w.shared.state := by
        rw [← m.reads choice op w.shared.state l hshared, hstep]
      exact ⟨fun g _ h => h.congr rfl rfl rfl, fun h => .of_idle h hzero⟩
    | @commits id earlier op l state result hstep =>
      have hshared : m.exclusive op = false := by simpa [Frame.writes] using hzero
      obtain rfl : state = w.shared.state := by
        rw [← m.reads choice op w.shared.state l hshared, hstep]
      refine ⟨fun g _ h => ?_, fun h => .of_idle ?_ hzero⟩
      · -- the reader holds the lock, so there is no writer
        have hle : Frame.shares m (.inside id earlier op l) ≤ w.weigh (Frame.shares m) :=
          Stacks.weight_le_weigh hthread
        rw [readers_eq hreach, readers_of_writer hreach h.writer] at hle
        simp [Frame.shares, hshared] at hle
      · exact Sequential.snoc h ⟨_, _, choice, hread hshared, hstep⟩
    | unlocks hexclusive => simp [Frame.writes, hexclusive] at hzero
    | unshares => exact ⟨fun g _ h => h.congr rfl rfl rfl, fun h => .of_idle h rfl⟩
  · rintro w op s' fs _ _ ⟨⟩
    exact ⟨fun _ g _ h => h.congr rfl rfl rfl, fun _ h => .of_idle h rfl⟩

theorem Stage.sequential (h : Stage m init s f) : ∃ c, Sequential (Runs m) init s.log c := by
  cases f with
  | acquire => exact h.elim
  | inside id earlier op l =>
    obtain ⟨-, c, hlog, -⟩ := h
    exact ⟨c, hlog⟩
  | release => exact ⟨_, h.2⟩

end FastPort.Foundation.ReadersWriter
