import FastPort.Foundation.Stack

/-! `MetricsCollector::RecordLatency`, from any number of threads, with
`MetricsCollector::UpdatePercentiles` on the GUI thread. -/
namespace FastPort.TestClient.MetricsCollector

open FastPort.Foundation.Pool FastPort.Foundation.Stack FastPort.Foundation.Tally
open FastPort.Foundation.Transition

def MAX_SAMPLES : Nat := 10000

/-- A stored latency. No code reads `call`: it is the call of `RecordLatency` that stored it. -/
structure Sample where
  call : Nat
  value : Float32

structure Percentiles where
  avg : Float
  p50 : Float
  p95 : Float
  p99 : Float

def slotValue (slot : Option Sample) : Float32 := slot.elim 0 Sample.value

def percentiles (values : List Float32) : Percentiles :=
  let n := values.length
  let sorted := values.mergeSort fun a b => decide (a ≤ b)
  let percentile (percent : Nat) : Float := (sorted.getD (n * percent / 100) 0).toFloat
  { avg := sorted.foldl (fun sum v => sum + v.toFloat) 0 / n.toFloat
    p50 := percentile 50
    p95 := percentile 95
    p99 := percentile 99 }

/-- Where the GUI thread is in `UpdatePercentiles`: in the loop of the copy, with the slots it
has read, or at one of the two stores of the reset. -/
inductive UpdatePc where
  | idle
  | copy (n : Nat) (copied : List (Option Sample))
  | resetCount
  | resetHead

/-- `begun` and `intervals` are history: how many copies had been made when each call of
`RecordLatency` took its index, and what each copy held. -/
structure Shared where
  latencySamples : Nat → Option Sample
  sampleHead : Nat
  sampleCount : Nat
  current : Percentiles
  gui : UpdatePc
  begun : List Nat
  intervals : List (List (Option Sample))

def Shared.initial : Shared where
  latencySamples _ := none
  sampleHead := 0
  sampleCount := 0
  current := ⟨0, 0, 0, 0⟩
  gui := .idle
  begun := []
  intervals := []

inductive RecordLatencyPc where
  | claim
  | store (call index : Nat)
  | count

inductive Frame where
  | recordLatency (rttMs : Float) (pc : RecordLatencyPc)

def recordLatency (s : Shared) (rttMs : Float) : RecordLatencyPc → Shared × List Frame
  | .claim =>
      ({ s with sampleHead := s.sampleHead + 1, begun := s.begun ++ [s.intervals.length] },
        [.recordLatency rttMs (.store s.begun.length s.sampleHead)])
  | .store call index =>
      ({ s with
        latencySamples :=
          Function.update s.latencySamples (index % MAX_SAMPLES) (some ⟨call, rttMs.toFloat32⟩) },
        [.recordLatency rttMs .count])
  | .count => ({ s with sampleCount := s.sampleCount + 1 }, [])

def updatePercentiles (s : Shared) : Shared :=
  match s.gui with
  | .idle =>
      if s.sampleCount = 0 then s
      else { s with gui := .copy (min s.sampleCount MAX_SAMPLES) [] }
  | .copy n copied =>
      if copied.length < n then
        { s with gui := .copy n (copied ++ [s.latencySamples copied.length]) }
      else { s with
        current := percentiles (copied.map slotValue)
        gui := .resetCount
        intervals := s.intervals ++ [copied] }
  | .resetCount => { s with sampleCount := 0, gui := .resetHead }
  | .resetHead => { s with sampleHead := 0, gui := .idle }

/-- Somebody calls `RecordLatency`, or the GUI thread takes a step. -/
inductive Event where
  | recordLatency (rttMs : Float)
  | updatePercentiles

def Shared.arrive (s : Shared) : Event → Option (Shared × List Frame)
  | .recordLatency rttMs => some (s, [.recordLatency rttMs .claim])
  | .updatePercentiles => some (updatePercentiles s, [])

def program : Program Shared Frame Unit Event where
  start s := s = Shared.initial
  exec _ s f := match f with
    | .recordLatency rttMs pc => recordLatency s rttMs pc
  arrive event s := s.arrive event

abbrev World := Stacks Shared Frame

abbrev Label := Move Unit Event

def system : System World Label := program.system

inductive Frame.Steps (s : Shared) : Frame → Shared → List Frame → Prop where
  | claims (rttMs : Float) :
      Steps s (.recordLatency rttMs .claim)
        { s with sampleHead := s.sampleHead + 1, begun := s.begun ++ [s.intervals.length] }
        [.recordLatency rttMs (.store s.begun.length s.sampleHead)]
  | stores (rttMs : Float) (call index : Nat) :
      Steps s (.recordLatency rttMs (.store call index))
        { s with
          latencySamples :=
            Function.update s.latencySamples (index % MAX_SAMPLES) (some ⟨call, rttMs.toFloat32⟩) }
        [.recordLatency rttMs .count]
  | counts (rttMs : Float) :
      Steps s (.recordLatency rttMs .count) { s with sampleCount := s.sampleCount + 1 } []

theorem Frame.steps_exec (f : Frame) (choice : Unit) (s : Shared) :
    f.Steps s (program.exec choice s f).1 (program.exec choice s f).2 := by
  cases f with
  | recordLatency rttMs pc =>
    cases pc with
    | claim => exact .claims rttMs
    | store call index => exact .stores rttMs call index
    | count => exact .counts rttMs

inductive Shared.Arrived (s : Shared) : Event → Shared → List Frame → Prop where
  | recordLatency (rttMs : Float) :
      Arrived s (.recordLatency rttMs) s [.recordLatency rttMs .claim]
  | findsNone (hgui : s.gui = .idle) (hnone : s.sampleCount = 0) :
      Arrived s .updatePercentiles s []
  | loads (hgui : s.gui = .idle) (hsome : 0 < s.sampleCount) :
      Arrived s .updatePercentiles
        { s with gui := .copy (min s.sampleCount MAX_SAMPLES) [] } []
  | copies {n : Nat} {copied : List (Option Sample)} (hgui : s.gui = .copy n copied)
      (hlt : copied.length < n) :
      Arrived s .updatePercentiles
        { s with gui := .copy n (copied ++ [s.latencySamples copied.length]) } []
  | computes {n : Nat} {copied : List (Option Sample)} (hgui : s.gui = .copy n copied)
      (hle : n ≤ copied.length) :
      Arrived s .updatePercentiles
        { s with
          current := percentiles (copied.map slotValue)
          gui := .resetCount
          intervals := s.intervals ++ [copied] } []
  | resetsCount (hgui : s.gui = .resetCount) :
      Arrived s .updatePercentiles { s with sampleCount := 0, gui := .resetHead } []
  | resetsHead (hgui : s.gui = .resetHead) :
      Arrived s .updatePercentiles { s with sampleHead := 0, gui := .idle } []

theorem Shared.arrived {s s' : Shared} {event : Event} {fs : List Frame}
    (h : s.arrive event = some (s', fs)) : s.Arrived event s' fs := by
  cases event with
  | recordLatency rttMs =>
    cases h
    exact .recordLatency rttMs
  | updatePercentiles =>
    cases h
    unfold updatePercentiles
    split
    · rename_i hgui
      split
      · rename_i hnone
        exact .findsNone hgui hnone
      · rename_i hsome
        exact .loads hgui (Nat.pos_of_ne_zero hsome)
    · rename_i n copied hgui
      split
      · rename_i hlt
        exact .copies hgui hlt
      · rename_i hle
        exact .computes hgui (Nat.le_of_not_lt hle)
    · rename_i hgui
      exact .resetsCount hgui
    · rename_i hgui
      exact .resetsHead hgui

def Frame.inProgress : Frame → Nat
  | recordLatency _ .claim => 0
  | recordLatency _ _ => 1

def Frame.toStore (i : Nat) : Frame → Nat
  | recordLatency _ (.store _ index) => if index = i then 1 else 0
  | recordLatency _ _ => 0

def hasStored (w : World) (slot : Nat) : Bool :=
  (List.range w.shared.sampleHead).any fun index =>
    index % MAX_SAMPLES == slot && w.weigh (Frame.toStore index) == 0

/-- A slot is copied when a call that has taken an index of it has stored, the count is reset
when no call is between its index and its count, and no call takes an index between the
reset of the count and the reset of the head. -/
def careful (w : World) : Label → Bool
  | .run tid choice =>
      match w.runs (.run tid choice : Label), w.shared.gui with
      | some (.recordLatency _ .claim), .resetHead => false
      | _, _ => true
  | .spawn (.recordLatency _) => true
  | .spawn .updatePercentiles =>
      match w.shared.gui with
      | .copy n copied => n ≤ copied.length || hasStored w copied.length
      | .resetCount => w.weigh Frame.inProgress == 0
      | _ => true

/-- The values of each interval were stored by calls that began after the copy before it,
and no call has a value in two intervals. -/
structure IntervalsExact (s : Shared) : Prop where
  fresh : ∀ (k : Nat) (interval : List (Option Sample)), s.intervals[k]? = some interval →
    ∀ slot ∈ interval, ∃ sample, slot = some sample ∧ s.begun[sample.call]? = some k
  once : ∀ (j k : Nat) (left right : List (Option Sample)) (x y : Sample),
    s.intervals[j]? = some left → s.intervals[k]? = some right → some x ∈ left →
      some y ∈ right → x.call = y.call → j = k

abbrev Careful (w : World) (l : Label) : Prop := careful w l = true

variable {w : World}

def Frame.Allowed (s : Shared) (f : Frame) : Prop :=
  ∀ rttMs, f = .recordLatency rttMs .claim → s.gui ≠ .resetHead

theorem allowed {tid : Nat} {choice : Unit} {f : Frame} {rest : List Frame}
    (hthread : w.threads[tid]? = some (f :: rest)) (hok : Careful w (.run tid choice)) :
    f.Allowed w.shared := by
  rintro rttMs rfl hgui
  simp [Careful, careful, Stacks.runs_eq hthread, hgui] at hok

theorem careful_focus (weight : Frame → Nat) {J : Shared → Nat → Prop} (hinit : J .initial 0)
    (hexec : ∀ (w : World) (tid : Nat) (f : Frame) (rest : List Frame) s' fs others,
      system.Reach Careful w → w.threads[tid]? = some (f :: rest) → f.Steps w.shared s' fs →
      f.Allowed w.shared → J w.shared (weight f + others) → J s' (tally weight fs + others))
    (harrive : ∀ w event s' fs, system.Reach Careful w → w.shared.Arrived event s' fs →
      Careful w (.spawn event) → J w.shared (w.weigh weight) →
      J s' (tally weight fs + w.weigh weight))
    (hw : system.Reach Careful w) : J w.shared (w.weigh weight) := by
  apply Program.focus (p := program) (fun s => s) weight ?_ ?_ ?_ hw
  · rintro s rfl
    exact hinit
  · intro w tid choice f rest others hreach hok hthread _ ih
    exact hexec w tid f rest _ _ others hreach hthread (f.steps_exec choice w.shared)
      (allowed hthread hok) ih
  · intro w event s' fs hreach hok harrived ih
    exact harrive w event s' fs hreach (Shared.arrived harrived) hok ih

def Balanced (s : Shared) (calls : Nat) : Prop :=
  (s.gui ≠ .resetHead → s.sampleCount + calls = s.sampleHead) ∧
    (s.gui = .resetHead → s.sampleCount = 0 ∧ calls = 0)

theorem balanced (hw : system.Reach Careful w) :
    Balanced w.shared (w.weigh Frame.inProgress) := by
  apply careful_focus Frame.inProgress (J := Balanced) ?_ ?_ ?_ hw
  · exact ⟨fun _ => rfl, fun _ => ⟨rfl, rfl⟩⟩
  · intro w tid f rest s' fs others _ _ hsteps hallowed ih
    obtain ⟨hrunning, hreset⟩ := ih
    cases hsteps with
    | claims rttMs =>
      have hne := hallowed rttMs rfl
      refine ⟨fun _ => ?_, fun hgui => absurd hgui hne⟩
      have heq := hrunning hne
      simp only [tally_cons, tally_nil, Frame.inProgress] at *
      omega
    | stores => exact ⟨hrunning, hreset⟩
    | counts =>
      constructor
      · intro hne
        have heq := hrunning hne
        simp only [tally_nil, Frame.inProgress] at *
        omega
      · intro hgui
        have hnone := (hreset hgui).2
        simp only [Frame.inProgress] at hnone
        omega
  · intro w event s' fs _ harrived hok ih
    cases harrived with
    | recordLatency | findsNone => simpa [Frame.inProgress] using ih
    | loads hgui | copies hgui | computes hgui =>
      have heq := ih.1 (by simp [hgui])
      rw [tally_nil, Nat.zero_add]
      exact ⟨fun _ => heq, by rintro ⟨⟩⟩
    | resetsCount hgui =>
      have hnone : w.weigh Frame.inProgress = 0 := by simpa [Careful, careful, hgui] using hok
      rw [tally_nil, Nat.zero_add]
      exact ⟨fun hne => absurd rfl hne, fun _ => ⟨rfl, hnone⟩⟩
    | resetsHead hgui =>
      obtain ⟨hcount, hnone⟩ := ih.2 hgui
      rw [tally_nil, Nat.zero_add, hnone]
      exact ⟨fun _ => hcount, by rintro ⟨⟩⟩

def UpdatePc.recording : UpdatePc → Bool
  | idle => true
  | copy _ _ => true
  | resetCount => false
  | resetHead => false

def Fresh (s : Shared) (call : Nat) : Prop := s.begun[call]? = some s.intervals.length

def FreshSlot (s : Shared) (slot : Option Sample) : Prop :=
  ∃ sample, slot = some sample ∧ Fresh s sample.call

def Frame.Fresh (s : Shared) : Frame → Prop
  | recordLatency _ (.store call _) => MetricsCollector.Fresh s call
  | _ => True

theorem Fresh.begins {s : Shared} {call began : Nat} (h : Fresh s call) :
    (s.begun ++ [began])[call]? = some s.intervals.length := by
  obtain ⟨hlt, -⟩ := List.getElem?_eq_some_iff.mp h
  rw [List.getElem?_append_left hlt]
  exact h

theorem Frame.Steps.fresh {s s' : Shared} {f g : Frame} {fs : List Frame}
    (hsteps : f.Steps s s' fs) (h : g.Fresh s) : g.Fresh s' := by
  cases g with
  | recordLatency rttMs pc =>
    cases pc with
    | store call index =>
      cases hsteps with
      | claims => exact MetricsCollector.Fresh.begins h
      | stores | counts => exact h
    | claim | count => trivial

theorem Frame.Steps.fresh_new {s s' : Shared} {f : Frame} {fs : List Frame}
    (hsteps : f.Steps s s' fs) : ∀ g ∈ fs, g.Fresh s' := by
  cases hsteps with
  | claims => exact List.forall_mem_singleton.mpr (by simp [Frame.Fresh, MetricsCollector.Fresh])
  | stores => exact List.forall_mem_singleton.mpr trivial
  | counts => exact List.forall_mem_nil _

theorem Frame.Steps.gui {s s' : Shared} {f : Frame} {fs : List Frame}
    (hsteps : f.Steps s s' fs) : s'.gui = s.gui := by
  cases hsteps with
  | _ => rfl

/-- While an interval is being recorded, every call in progress has begun in it. -/
theorem fresh (hw : system.Reach Careful w) (hrecording : w.shared.gui.recording = true) :
    ∀ stack ∈ w.threads, ∀ f ∈ stack, f.Fresh w.shared := by
  apply Program.invariant (p := program) (I := fun w => w.shared.gui.recording = true →
    ∀ stack ∈ w.threads, ∀ f ∈ stack, f.Fresh w.shared) ?_ ?_ ?_ hw hrecording
  · rintro s rfl - stack hstack
    cases hstack
  · intro w tid choice f rest _ ih _ hthread hrecording stack hstack g hg
    have hsteps := f.steps_exec choice w.shared
    rw [hsteps.gui] at hrecording
    rcases Stacks.mem_new_or_old hthread hstack hg with hnew | ⟨old, hold, hgold⟩
    · exact hsteps.fresh_new g hnew
    · exact hsteps.fresh (ih hrecording old hold g hgold)
  · intro w event s' fs hreach ih _ harrived hrecording stack hstack g hg
    rcases List.mem_append.mp hstack with hold | hnew
    · cases Shared.arrived harrived with
      | recordLatency | findsNone => exact ih hrecording stack hold g hg
      | loads hgui | copies hgui =>
        have hbefore : w.shared.gui.recording = true := by
          rw [hgui]
          rfl
        have hfresh := ih hbefore stack hold g hg
        cases g with
        | recordLatency rttMs pc =>
          cases pc with
          | _ => exact hfresh
      | computes | resetsCount => cases hrecording
      | resetsHead hgui =>
        have hnone := Stacks.weigh_eq_zero.mp ((balanced hreach).2 hgui).2 stack hold g hg
        cases g with
        | recordLatency rttMs pc =>
          cases pc with
          | claim => trivial
          | store | count => cases hnone
    · rw [List.mem_singleton.mp hnew] at hg
      cases Shared.arrived harrived with
      | recordLatency =>
        rw [List.mem_singleton.mp hg]
        trivial
      | _ => cases hg

theorem FreshSlot.begins {s : Shared} {slot : Option Sample} {began : Nat}
    (h : FreshSlot s slot) : ∃ sample, slot = some sample ∧
      (s.begun ++ [began])[sample.call]? = some s.intervals.length := by
  obtain ⟨sample, hslot, hfresh⟩ := h
  exact ⟨sample, hslot, hfresh.begins⟩

/-- While an interval is being recorded, the slot of every index that has been taken and
stored to holds a value of the interval. -/
theorem stored (index : Nat) (hw : system.Reach Careful w)
    (hrecording : w.shared.gui.recording = true) (hindex : index < w.shared.sampleHead)
    (hnone : w.weigh (Frame.toStore index) = 0) :
    FreshSlot w.shared (w.shared.latencySamples (index % MAX_SAMPLES)) := by
  apply careful_focus (Frame.toStore index) (J := fun s n => s.gui.recording = true →
    index < s.sampleHead → n = 0 → FreshSlot s (s.latencySamples (index % MAX_SAMPLES)))
    ?_ ?_ ?_ hw hrecording hindex hnone
  · intro _ hlt
    exact absurd hlt (Nat.not_lt_zero _)
  · intro w tid f rest s' fs others hreach hthread hsteps _ ih hrecording hindex hnone
    cases hsteps with
    | claims rttMs =>
      simp only [tally_cons, tally_nil, Frame.toStore] at *
      have hne : w.shared.sampleHead ≠ index := by
        rintro rfl
        simp at hnone
      rw [if_neg hne] at hnone
      exact (ih hrecording (by omega) (by omega)).begins
    | stores rttMs call taken =>
      have hfresh : Fresh w.shared call := fresh hreach hrecording _
        (List.mem_of_getElem? hthread) _ List.mem_cons_self
      by_cases hslot : index % MAX_SAMPLES = taken % MAX_SAMPLES
      · rw [hslot]
        exact ⟨_, Function.update_self .., hfresh⟩
      · have hne : taken ≠ index := fun heq => hslot (heq ▸ rfl)
        simp only [tally_cons, tally_nil, Frame.toStore, if_neg hne] at *
        rw [FreshSlot, Function.update_of_ne hslot]
        exact ih hrecording hindex (by omega)
    | counts => exact ih hrecording hindex hnone
  · intro w event s' fs _ harrived _ ih hrecording hindex hnone
    cases harrived with
    | recordLatency | findsNone => exact ih hrecording hindex (by simpa [Frame.toStore] using hnone)
    | loads hgui | copies hgui =>
      have hbefore : w.shared.gui.recording = true := by
        rw [hgui]
        rfl
      exact ih hbefore hindex (by simpa using hnone)
    | computes | resetsCount => cases hrecording
    | resetsHead => exact absurd hindex (Nat.not_lt_zero _)

structure Copying (s : Shared) (n : Nat) (copied : List (Option Sample)) : Prop where
  taken : n ≤ s.sampleHead
  inBounds : n ≤ MAX_SAMPLES
  fresh : ∀ slot ∈ copied, FreshSlot s slot

theorem copying (hw : system.Reach Careful w) :
    ∀ n copied, w.shared.gui = .copy n copied → Copying w.shared n copied := by
  apply careful_focus (fun _ => 0)
    (J := fun s _ => ∀ n copied, s.gui = .copy n copied → Copying s n copied) ?_ ?_ ?_ hw
  · rintro n copied ⟨⟩
  · intro w tid f rest s' fs others _ _ hsteps _ ih n copied hgui
    rw [hsteps.gui] at hgui
    obtain ⟨htaken, hbounds, hfresh⟩ := ih n copied hgui
    cases hsteps with
    | claims =>
      exact ⟨Nat.le_succ_of_le htaken, hbounds, fun slot hslot => (hfresh slot hslot).begins⟩
    | stores | counts => exact ⟨htaken, hbounds, hfresh⟩
  · intro w event s' fs hreach harrived hok ih n copied hgui
    cases harrived with
    | recordLatency | findsNone => exact ih n copied hgui
    | loads hidle =>
      cases hgui
      have hbalance := (balanced hreach).1 (by simp [hidle])
      refine ⟨?_, Nat.min_le_right _ _, fun _ hslot => nomatch hslot⟩
      have hle := Nat.min_le_left w.shared.sampleCount MAX_SAMPLES
      simp only
      omega
    | @copies n before hcopy hlt =>
      cases hgui
      obtain ⟨htaken, hbounds, hfresh⟩ := ih n before hcopy
      refine ⟨htaken, hbounds, List.forall_mem_append.mpr ⟨hfresh, ?_⟩⟩
      have hstored : hasStored w before.length = true := by
        simpa [Careful, careful, hcopy, Nat.not_le_of_lt hlt] using hok
      obtain ⟨index, hindex, hslot⟩ := List.any_eq_true.mp hstored
      simp only [Bool.and_eq_true, beq_iff_eq] at hslot
      rw [← hslot.1]
      have hrecording : w.shared.gui.recording = true := by
        rw [hcopy]
        rfl
      exact List.forall_mem_singleton.mpr
        (stored index hreach hrecording (List.mem_range.mp hindex) hslot.2)
    | computes | resetsCount | resetsHead => cases hgui

theorem intervals_fresh (hw : system.Reach Careful w) :
    ∀ (k : Nat) (interval : List (Option Sample)), w.shared.intervals[k]? = some interval →
      ∀ slot ∈ interval, ∃ sample, slot = some sample ∧ w.shared.begun[sample.call]? = some k := by
  apply careful_focus (fun _ => 0) (J := fun s _ => ∀ (k : Nat) (interval : List (Option Sample)),
    s.intervals[k]? = some interval →
      ∀ slot ∈ interval, ∃ sample, slot = some sample ∧ s.begun[sample.call]? = some k) ?_ ?_ ?_ hw
  · rintro k interval ⟨⟩
  · intro w tid f rest s' fs others _ _ hsteps _ ih k interval hinterval slot hslot
    cases hsteps with
    | claims =>
      obtain ⟨sample, heq, hbegun⟩ := ih k interval hinterval slot hslot
      obtain ⟨hlt, -⟩ := List.getElem?_eq_some_iff.mp hbegun
      exact ⟨sample, heq, (List.getElem?_append_left hlt).trans hbegun⟩
    | stores | counts => exact ih k interval hinterval slot hslot
  · intro w event s' fs hreach harrived _ ih k interval hinterval slot hslot
    cases harrived with
    | @computes n copied hgui hle =>
      rcases Nat.lt_trichotomy k w.shared.intervals.length with hlt | heq | hgt
      · rw [List.getElem?_append_left hlt] at hinterval
        exact ih k interval hinterval slot hslot
      · rw [heq, List.getElem?_concat_length] at hinterval
        rw [← Option.some.inj hinterval] at hslot
        rw [heq]
        exact (copying hreach n copied hgui).fresh slot hslot
      · rw [List.getElem?_eq_none (by simp; omega)] at hinterval
        cases hinterval
    | _ => exact ih k interval hinterval slot hslot

/-- In a run whose steps are careful, the values of each interval are its own. -/
theorem intervals_exact (hw : system.Reach Careful w) : IntervalsExact w.shared := by
  refine ⟨intervals_fresh hw, fun j k left right x y hleft hright hx hy hcall => ?_⟩
  obtain ⟨_, ⟨⟩, hj⟩ := intervals_fresh hw j left hleft _ hx
  obtain ⟨_, ⟨⟩, hk⟩ := intervals_fresh hw k right hright _ hy
  rw [hcall] at hj
  exact Option.some.inj (hj.symm.trans hk)

/-- Two calls of `RecordLatency` at once, the one that began later returning first, and a
third during the copy; then two more at once. -/
def overlappingCalls : List Label :=
  let update (count : Nat) : List Label := List.replicate count (.spawn .updatePercentiles)
  let goes (tids : List Nat) : List Label := tids.map fun tid => .run tid ()
  .spawn (.recordLatency 1) :: .spawn (.recordLatency 2) :: goes [0, 1, 1, 1, 0, 0] ++
    update 1 ++ .spawn (.recordLatency 3) :: update 1 ++ goes [3] ++ update 1 ++ goes [3, 3] ++
    update 3 ++ .spawn (.recordLatency 4) :: .spawn (.recordLatency 5) ::
    goes [10, 9, 9, 9, 10, 10] ++ update 6

def Shared.calls (s : Shared) : List (List (Option Nat)) :=
  s.intervals.map fun interval => interval.map fun slot => slot.map Sample.call

theorem intervals_exact_overlappingCalls :
    ∃ w, system.runUnder Careful ⟨Shared.initial, []⟩ overlappingCalls = some w ∧
      (w.shared.calls == [[some 0, some 1], [some 3, some 4]]) = true ∧
      IntervalsExact w.shared := by
  obtain ⟨w, hrun, htest⟩ := System.exists_of_runUnder system Careful ⟨Shared.initial, []⟩
    overlappingCalls (fun w => w.shared.calls == [[some 0, some 1], [some 3, some 4]])
    (by decide +kernel)
  have hinit : system.init ⟨Shared.initial, []⟩ := ⟨rfl, rfl⟩
  exact ⟨w, hrun, htest, intervals_exact (.of_runUnder (.init hinit) hrun)⟩

/-- The second call has stored and is not counted when the count is reset. It is counted
then, and the next copy holds the value of the first call once more. -/
def recordDuringUpdate : List Label :=
  let update (count : Nat) : List Label := List.replicate count (.spawn .updatePercentiles)
  .spawn (.recordLatency 1) :: List.replicate 3 (.run 0 ()) ++
    .spawn (.recordLatency 2) :: List.replicate 2 (.run 1 ()) ++ update 4 ++ .run 1 () :: update 4

theorem Shared.exists_of_calls {s : Shared} {k call : Nat}
    (h : s.calls[k]? = some [some call]) :
    ∃ interval sample, s.intervals[k]? = some interval ∧ some sample ∈ interval ∧
      sample.call = call := by
  obtain ⟨interval, hinterval, hcalls⟩ := Option.map_eq_some_iff.mp (List.getElem?_map .. ▸ h)
  have hmem : some call ∈ interval.map fun slot => slot.map Sample.call :=
    hcalls ▸ List.mem_singleton_self _
  obtain ⟨slot, hslot, hcall⟩ := List.mem_map.mp hmem
  obtain ⟨sample, rfl, hsample⟩ := Option.map_eq_some_iff.mp hcall
  exact ⟨interval, sample, hinterval, hslot, hsample⟩

theorem not_intervals_exact : ∃ w,
    system.runUnder System.free ⟨Shared.initial, []⟩ recordDuringUpdate = some w ∧
      ¬ IntervalsExact w.shared := by
  obtain ⟨w, hrun, htest⟩ := System.exists_of_runUnder system System.free ⟨Shared.initial, []⟩
    recordDuringUpdate (fun w => w.shared.calls == [[some 0], [some 0]]) (by decide +kernel)
  have hcalls : w.shared.calls = [[some 0], [some 0]] := eq_of_beq htest
  refine ⟨w, hrun, fun hexact => ?_⟩
  obtain ⟨left, x, hleft, hx, hfirst⟩ := Shared.exists_of_calls (k := 0) (by rw [hcalls]; rfl)
  obtain ⟨right, y, hright, hy, hsecond⟩ := Shared.exists_of_calls (k := 1) (by rw [hcalls]; rfl)
  exact absurd (hexact.once 0 1 left right x y hleft hright hx hy (hfirst.trans hsecond.symm))
    Nat.zero_ne_one

end FastPort.TestClient.MetricsCollector
