import FastPort.Foundation.Linearizability
import Mathlib.Data.Finmap

/-! `Container`: an `unordered_map` behind an `RWLock`. The methods walk the storage entry
by entry while they have the lock; seen from outside each of them reads or updates a finite
map in one piece. -/
namespace FastPort.Commons.Container

open FastPort.Foundation FastPort.Foundation.Pool FastPort.Foundation.ReadersWriter
open FastPort.Foundation.Transition

variable {Key T : Type} [DecidableEq Key]

abbrev Entry (Key T : Type) := Sigma fun _ : Key => T

abbrev Storage (Key T : Type) := AList fun _ : Key => T

structure Layout (Key T : Type) where
  arrange : List (Entry Key T) → List (Entry Key T)
  perm : ∀ entries, (arrange entries).Perm entries

instance : Inhabited (Layout Key T) := ⟨id, fun _ => .refl _⟩

/-- The methods. `Emplace` comes with the value that it constructs. -/
inductive Method (Key T : Type) where
  | add (key : Key) (value : T)
  | emplace (key : Key) (value : T)
  | findIf (predicate : Key → T → Bool)
  | remove (key : Key)
  | forEach
  | snapshot
  | removeIf (predicate : Key → T → Bool)
  | size
  | clear

/-- What they return. Of `ForEach` it is the entries that its callback was called with. -/
inductive Reply (Key T : Type) where
  | inserted (inserted : Bool)
  | found (value : Option T)
  | removed (removed : Bool)
  | visited (entries : List (Entry Key T))
  | count (count : Nat)
  | none
deriving DecidableEq

structure Cursor (Key T : Type) where
  position : Nat
  removed : Nat
  result : List (Entry Key T)

namespace Storage

def emplace (layout : Layout Key T) (key : Key) (value : T) (s : Storage Key T)
    (h : key ∉ s) : Storage Key T where
  entries := layout.arrange (⟨key, value⟩ :: s.entries)
  nodupKeys := by
    refine (List.perm_nodupKeys (layout.perm _)).mpr ?_
    rw [List.nodupKeys_cons]
    exact ⟨fun hmem => h (AList.mem_keys.mpr hmem), s.nodupKeys⟩

def eraseAt (position : Nat) (s : Storage Key T) : Storage Key T where
  entries := s.entries.eraseIdx position
  nodupKeys := s.nodupKeys.sublist (List.eraseIdx_sublist _ _)

end Storage

def exclusive : Method Key T → Bool
  | .add _ _ | .emplace _ _ | .remove _ | .removeIf _ | .clear => true
  | .findIf _ | .forEach | .snapshot | .size => false

/-- `m_Storage.emplace`, which leaves an entry alone that is there already. -/
def insert (layout : Layout Key T) (key : Key) (value : T) (s : Storage Key T) :
    Storage Key T × (Cursor Key T ⊕ Reply Key T) :=
  if h : key ∈ s then (s, .inr (.inserted false))
  else (Storage.emplace layout key value s h, .inr (.inserted true))

/-- One turn of the loop of a method, or all of a method that has none. -/
def step (layout : Layout Key T) (method : Method Key T) (s : Storage Key T)
    (c : Cursor Key T) : Storage Key T × (Cursor Key T ⊕ Reply Key T) :=
  match method with
  | .add key value | .emplace key value => insert layout key value s
  | .findIf predicate =>
      match s.entries[c.position]? with
      | none => (s, .inr (.found none))
      | some e =>
          if predicate e.1 e.2 then (s, .inr (.found (some e.2)))
          else (s, .inl { c with position := c.position + 1 })
  | .remove key => (s.erase key, .inr (.removed (key ∈ s)))
  | .forEach | .snapshot =>
      match s.entries[c.position]? with
      | none => (s, .inr (.visited c.result))
      | some e => (s, .inl { c with position := c.position + 1, result := c.result ++ [e] })
  | .removeIf predicate =>
      match s.entries[c.position]? with
      | none => (s, .inr (.count c.removed))
      | some e =>
          if predicate e.1 e.2 then
            (Storage.eraseAt c.position s, .inl { c with removed := c.removed + 1 })
          else (s, .inl { c with position := c.position + 1 })
  | .size => (s, .inr (.count s.entries.length))
  | .clear => (∅, .inr .none)

theorem step_reads (layout : Layout Key T) (method : Method Key T) (s : Storage Key T)
    (c : Cursor Key T) (h : exclusive method = false) : (step layout method s c).1 = s := by
  cases method with
  | findIf predicate =>
    simp only [step]
    split
    · rfl
    · split <;> rfl
  | forEach | snapshot =>
    simp only [step]
    split <;> rfl
  | size => rfl
  | _ => cases h

inductive Turn (s : Storage Key T) (c : Cursor Key T) :
    Method Key T → Storage Key T → Cursor Key T → Prop where
  | passes {predicate : Key → T → Bool} {e : Entry Key T} (he : s.entries[c.position]? = some e)
      (hpredicate : predicate e.1 e.2 = false) :
      Turn s c (.findIf predicate) s { c with position := c.position + 1 }
  | calls {e : Entry Key T} (he : s.entries[c.position]? = some e) :
      Turn s c .forEach s { c with position := c.position + 1, result := c.result ++ [e] }
  | copies {e : Entry Key T} (he : s.entries[c.position]? = some e) :
      Turn s c .snapshot s { c with position := c.position + 1, result := c.result ++ [e] }
  | erases {predicate : Key → T → Bool} {e : Entry Key T} (he : s.entries[c.position]? = some e)
      (hpredicate : predicate e.1 e.2 = true) :
      Turn s c (.removeIf predicate) (Storage.eraseAt c.position s)
        { c with removed := c.removed + 1 }
  | keeps {predicate : Key → T → Bool} {e : Entry Key T} (he : s.entries[c.position]? = some e)
      (hpredicate : predicate e.1 e.2 = false) :
      Turn s c (.removeIf predicate) s { c with position := c.position + 1 }

theorem turn_of_step {layout : Layout Key T} {method : Method Key T} {s s' : Storage Key T}
    {c c' : Cursor Key T} (h : step layout method s c = (s', .inl c')) :
    Turn s c method s' c' := by
  cases method with
  | findIf predicate =>
    simp only [step] at h
    split at h
    · cases h
    · rename_i he
      split at h
      · cases h
      · rename_i hpredicate
        cases h
        exact .passes he (Bool.eq_false_iff.mpr hpredicate)
  | forEach =>
    simp only [step] at h
    split at h
    · cases h
    · rename_i he
      cases h
      exact .calls he
  | snapshot =>
    simp only [step] at h
    split at h
    · cases h
    · rename_i he
      cases h
      exact .copies he
  | removeIf predicate =>
    simp only [step] at h
    split at h
    · cases h
    · rename_i he
      split at h
      · rename_i hpredicate
        cases h
        exact .erases he hpredicate
      · rename_i hpredicate
        cases h
        exact .keeps he (Bool.eq_false_iff.mpr hpredicate)
  | add key value | emplace key value =>
    simp only [step, insert] at h
    split at h <;> cases h
  | remove | size | clear => cases h

omit [DecidableEq Key] in
theorem Turn.falls {method : Method Key T} {s s' : Storage Key T} {c c' : Cursor Key T}
    (h : Turn s c method s' c') :
    s'.entries.length - c'.position < s.entries.length - c.position := by
  cases h with
  | passes he | calls he | copies he | keeps he =>
    obtain ⟨hlt, -⟩ := List.getElem?_eq_some_iff.mp he
    simp only
    omega
  | erases he =>
    obtain ⟨hlt, -⟩ := List.getElem?_eq_some_iff.mp he
    simp only [Storage.eraseAt, List.length_eraseIdx_of_lt hlt]
    omega

/-- The methods behind `m_Lock`. -/
def monitor (Key T : Type) [DecidableEq Key] :
    Monitor (Storage Key T) (Method Key T) (Cursor Key T) (Reply Key T) (Layout Key T) where
  exclusive := exclusive
  enter _ := ⟨0, 0, []⟩
  step := step
  left _ s c := s.entries.length - c.position
  reads := step_reads
  falls h := (turn_of_step h).falls

theorem turn {layout : Layout Key T} {method : Method Key T} {s s' : Storage Key T}
    {c c' : Cursor Key T} (h : (monitor Key T).step layout method s c = (s', .inl c')) :
    Turn s c method s' c' := turn_of_step h

/-- What a method is for, over a finite map. -/
def Meaning (method : Method Key T) (m m' : Finmap fun _ : Key => T) (reply : Reply Key T) : Prop :=
  match method with
  | .add key value | .emplace key value =>
      (key ∈ m ∧ m' = m ∧ reply = .inserted false) ∨
        (key ∉ m ∧ m' = m.insert key value ∧ reply = .inserted true)
  | .findIf predicate =>
      m' = m ∧ ((∃ key value, m.lookup key = some value ∧ predicate key value = true ∧
          reply = .found (some value)) ∨
        ((∀ key value, m.lookup key = some value → predicate key value = false) ∧
          reply = .found none))
  | .remove key => m' = m.erase key ∧ reply = .removed (key ∈ m)
  | .forEach | .snapshot =>
      m' = m ∧ ∃ entries : List (Entry Key T), ↑entries = m.entries ∧ reply = .visited entries
  | .removeIf predicate =>
      m'.entries = m.entries.filter (fun e => predicate e.1 e.2 = false) ∧
        reply = .count (m.entries.countP (fun e => predicate e.1 e.2 = true))
  | .size => m' = m ∧ reply = .count m.entries.card
  | .clear => m' = ∅ ∧ reply = .none

variable {s t : Storage Key T} {c : Cursor Key T} {predicate : Key → T → Bool}

theorem take_succ_of_getElem? {α : Type} {entries : List α} {n : Nat} {e : α}
    (h : entries[n]? = some e) : entries.take (n + 1) = entries.take n ++ [e] := by
  rw [List.take_add_one, h]
  rfl

theorem steps_findIf (h : Steps (monitor Key T) (.findIf predicate) s t c) :
    t = s ∧ ∀ e ∈ s.entries.take c.position, predicate e.1 e.2 = false := by
  induction h with
  | enter => exact ⟨rfl, by simp [monitor]⟩
  | step layout _ hstep ih =>
    obtain ⟨rfl, hpassed⟩ := ih
    cases turn hstep with
    | passes he hpredicate =>
      refine ⟨rfl, fun e hmem => ?_⟩
      rw [take_succ_of_getElem? he] at hmem
      rcases List.mem_append.mp hmem with hmem | hmem
      · exact hpassed e hmem
      · obtain rfl := List.mem_singleton.mp hmem
        exact hpredicate

theorem steps_visit {method : Method Key T} (hvisits : method = .forEach ∨ method = .snapshot)
    (h : Steps (monitor Key T) method s t c) :
    t = s ∧ c.result = s.entries.take c.position := by
  induction h with
  | enter => exact ⟨rfl, rfl⟩
  | step layout _ hstep ih =>
    obtain ⟨rfl, hresult⟩ := ih
    cases turn hstep with
    | calls he | copies he => exact ⟨rfl, by rw [take_succ_of_getElem? he, hresult]⟩
    | passes | erases | keeps => rcases hvisits with hvisits | hvisits <;> cases hvisits

/-- The loop of `RemoveIf` has been through the first entries: of these it has kept what it
was not to remove. -/
theorem steps_removeIf (h : Steps (monitor Key T) (.removeIf predicate) s t c) :
    ∃ n, t.entries = (s.entries.take n).filter (fun e => predicate e.1 e.2 = false) ++
        s.entries.drop n ∧
      c.position = ((s.entries.take n).filter fun e => predicate e.1 e.2 = false).length ∧
      c.removed = (s.entries.take n).countP fun e => predicate e.1 e.2 = true := by
  induction h with
  | enter => exact ⟨0, rfl, rfl, rfl⟩
  | @step t t' c c' layout _ hstep ih =>
    obtain ⟨n, hentries, hposition, hremoved⟩ := ih
    have hat : ∀ {e}, t.entries[c.position]? = some e → s.entries[n]? = some e := by
      intro e he
      rw [hentries, hposition, List.getElem?_append_right (Nat.le_refl _), Nat.sub_self,
        List.getElem?_drop] at he
      exact he
    cases turn hstep with
    | @erases _ e he hpredicate =>
      have hnext := take_succ_of_getElem? (hat he)
      refine ⟨n + 1, ?_, ?_, ?_⟩
      · simp only [Storage.eraseAt, hentries, hposition, hnext, List.filter_append]
        rw [List.eraseIdx_append_of_length_le (Nat.le_refl _), Nat.sub_self]
        simp [hpredicate]
      · simp [hnext, hpredicate, hposition]
      · simp [hnext, hpredicate, hremoved]
    | @keeps _ e he hpredicate =>
      have hnext := take_succ_of_getElem? (hat he)
      obtain ⟨hlt, hget⟩ := List.getElem?_eq_some_iff.mp (hat he)
      refine ⟨n + 1, ?_, ?_, ?_⟩
      · rw [hentries, hnext, List.filter_append, List.drop_eq_getElem_cons hlt, hget]
        simp [hpredicate]
      · simp [hnext, hpredicate, hposition]
      · simp [hnext, hpredicate, hremoved]

theorem lookup_eq_some {key : Key} {value : T} :
    (AList.toFinmap s).lookup key = some value ↔ ⟨key, value⟩ ∈ s.entries :=
  AList.mem_lookup_iff

theorem toFinmap_emplace (layout : Layout Key T) (key : Key) (value : T) (h : key ∉ s) :
    AList.toFinmap (Storage.emplace layout key value s h) =
      (AList.toFinmap s).insert key value := by
  apply Finmap.ext
  rw [Finmap.entries_insert_of_notMem h]
  exact Multiset.coe_eq_coe.mpr (layout.perm _)

theorem insert_meaning {layout : Layout Key T} {key : Key} {value : T} {s' : Storage Key T}
    {reply : Reply Key T} (h : insert layout key value s = (s', .inr reply)) :
    (key ∈ AList.toFinmap s ∧ AList.toFinmap s' = AList.toFinmap s ∧ reply = .inserted false) ∨
      (key ∉ AList.toFinmap s ∧ AList.toFinmap s' = (AList.toFinmap s).insert key value ∧
        reply = .inserted true) := by
  simp only [insert] at h
  split at h
  · rename_i hmem
    cases h
    exact .inl ⟨hmem, rfl, rfl⟩
  · rename_i hnone
    cases h
    exact .inr ⟨hnone, toFinmap_emplace layout key value hnone, rfl⟩

theorem steps_straight {method : Method Key T} (h : Steps (monitor Key T) method s t c)
    (hstraight : ∀ s c s' c', ¬ Turn s c method s' c') : t = s := by
  cases h with
  | enter => rfl
  | step _ _ hstep => exact absurd (turn hstep) (hstraight _ _ _ _)

theorem findIf_meaning {layout : Layout Key T} {s' : Storage Key T} {reply : Reply Key T}
    (hpassed : ∀ e ∈ s.entries.take c.position, predicate e.1 e.2 = false)
    (h : step layout (.findIf predicate) s c = (s', .inr reply)) :
    Meaning (.findIf predicate) (AList.toFinmap s) (AList.toFinmap s') reply := by
  simp only [step] at h
  split at h
  · rename_i hend
    cases h
    rw [List.take_of_length_le (List.getElem?_eq_none_iff.mp hend)] at hpassed
    exact ⟨rfl, .inr ⟨fun key value hlookup => hpassed _ (lookup_eq_some.mp hlookup), rfl⟩⟩
  · rename_i e he
    split at h
    · rename_i hpredicate
      cases h
      have hlookup := lookup_eq_some.mpr (List.mem_of_getElem? he)
      exact ⟨rfl, .inl ⟨e.1, e.2, hlookup, hpredicate, rfl⟩⟩
    · cases h

theorem removeIf_meaning {layout : Layout Key T} {s' : Storage Key T} {reply : Reply Key T}
    (hsteps : Steps (monitor Key T) (.removeIf predicate) s t c)
    (h : step layout (.removeIf predicate) t c = (s', .inr reply)) :
    Meaning (.removeIf predicate) (AList.toFinmap s) (AList.toFinmap s') reply := by
  obtain ⟨n, hentries, hposition, hremoved⟩ := steps_removeIf hsteps
  simp only [step] at h
  split at h
  · rename_i hend
    cases h
    -- the iterator is at the end, so the loop has been through all entries
    have hle := List.getElem?_eq_none_iff.mp hend
    have hall : s.entries.drop n = [] := by
      rw [hentries, List.length_append, hposition] at hle
      exact List.length_eq_zero_iff.mp (by omega)
    have htake : s.entries.take n = s.entries :=
      List.take_of_length_le (List.drop_eq_nil_iff.mp hall)
    rw [hall, htake, List.append_nil] at hentries
    rw [htake] at hremoved
    refine ⟨?_, ?_⟩
    · rw [AList.toFinmap_entries, AList.toFinmap_entries, hentries, Multiset.filter_coe]
    · rw [AList.toFinmap_entries, hremoved, Multiset.coe_countP]
  · split at h <;> cases h

theorem meaning_of_runs (method : Method Key T) (s s' : Storage Key T) (reply : Reply Key T)
    (h : Runs (monitor Key T) method s s' reply) :
    Meaning method (AList.toFinmap s) (AList.toFinmap s') reply := by
  obtain ⟨t, c, layout, hsteps, hstep⟩ := h
  have hstep : step layout method t c = (s', .inr reply) := hstep
  cases method with
  | add key value | emplace key value =>
    obtain rfl := steps_straight hsteps (by rintro _ _ _ _ ⟨⟩)
    exact insert_meaning hstep
  | findIf predicate =>
    obtain ⟨rfl, hpassed⟩ := steps_findIf hsteps
    exact findIf_meaning hpassed hstep
  | remove key =>
    obtain rfl := steps_straight hsteps (by rintro _ _ _ _ ⟨⟩)
    cases hstep
    exact ⟨rfl, rfl⟩
  | removeIf predicate => exact removeIf_meaning hsteps hstep
  | size =>
    obtain rfl := steps_straight hsteps (by rintro _ _ _ _ ⟨⟩)
    cases hstep
    exact ⟨rfl, rfl⟩
  | clear =>
    obtain rfl := steps_straight hsteps (by rintro _ _ _ _ ⟨⟩)
    cases hstep
    exact ⟨rfl, rfl⟩
  | forEach | snapshot =>
    obtain ⟨rfl, hresult⟩ := steps_visit (by simp) hsteps
    simp only [step] at hstep
    split at hstep
    · rename_i hend
      cases hstep
      rw [List.take_of_length_le (List.getElem?_eq_none_iff.mp hend)] at hresult
      exact ⟨rfl, _, rfl, by rw [hresult]⟩
    · cases hstep

abbrev World (Key T : Type) :=
  Stack.Stacks (Shared (Storage Key T) (Method Key T) (Reply Key T))
    (Frame (Method Key T) (Cursor Key T) (Reply Key T))

def system (Key T : Type) [DecidableEq Key] :
    System (World Key T) (Move (Layout Key T) (Method Key T)) :=
  (program (monitor Key T) ∅).system

/-- Whatever the threads call at whatever time, each call has the effect and the result that
it has on a finite map, at one moment of its own; and no call waits for ever. -/
theorem calls_linearizable {w : World Key T} (hw : (system Key T).Reach System.free w) :
    Linearizable (monitor Key T) ∅ Meaning (∅ : Finmap fun _ : Key => T) w :=
  linearizable AList.toFinmap meaning_of_runs hw

/-- `Remove` waits for the `ForEach` that is under way. -/
def sharedRun : List (Move (Layout Nat Nat) (Method Nat Nat)) :=
  let runs := fun tid n => List.replicate n (.run tid default)
  .spawn (.add 1 10) :: runs 0 3 ++ .spawn .forEach :: .spawn (.remove 1) :: runs 1 1 ++
    runs 2 2 ++ runs 1 3 ++ runs 2 3

theorem calls_linearizable_of_three :
    ∃ w, (system Nat Nat).runUnder System.free ⟨.initial ∅, []⟩ sharedRun = some w ∧
      (decide (w.shared.returned = [(0, .inserted true), (1, .visited [⟨1, 10⟩]),
        (2, .removed true)] ∧ w.shared.state.entries = [])) = true ∧
      Linearizable (monitor Nat Nat) ∅ Meaning (∅ : Finmap fun _ : Nat => Nat) w := by
  obtain ⟨w, hrun, htest⟩ := System.exists_of_runUnder (system Nat Nat) System.free
    ⟨.initial ∅, []⟩ sharedRun
    (fun w => decide (w.shared.returned = [(0, .inserted true), (1, .visited [⟨1, 10⟩]),
      (2, .removed true)] ∧ w.shared.state.entries = [])) (by decide +kernel)
  have hinit : (system Nat Nat).init ⟨.initial ∅, []⟩ := ⟨rfl, rfl⟩
  exact ⟨w, hrun, htest, calls_linearizable (.of_runUnder (.init hinit) hrun)⟩

end FastPort.Commons.Container
