import FastPort.Sessions.Accounting
import FastPort.Foundation.Feed
import FastPort.Foundation.Stack

/-! A session beside the stream that its socket delivers, and the rule by which the
frames of its threads pass a token on while it is connected. -/
namespace FastPort.Sessions

open FastPort.Commons FastPort.Foundation.Feed FastPort.Foundation.Pool
open FastPort.Foundation.Stack FastPort.Foundation.Tally FastPort.Foundation.Transition

def Event.brings : Event → List Byte
  | .recvCompletion _ success data => if success then data else []
  | _ => []

def fedSession (stream : List Byte) : System (Fed World Byte) Label :=
  fed machine Event.brings stream

def World.stacks (w : World) : Stacks Shared Frame :=
  ⟨w.shared, w.threads.map Thread.frames⟩

theorem World.stacks_set (w : World) (tid : Nat) (s' : Shared) (t' : Thread) :
    World.stacks ⟨s', w.threads.set tid t'⟩ = ⟨s', w.stacks.threads.set tid t'.frames⟩ := by
  simp [World.stacks, List.map_set]

theorem World.stacks_append (w : World) (s' : Shared) (t' : Thread) :
    World.stacks ⟨s', w.threads ++ [t']⟩ = ⟨s', w.stacks.threads ++ [t'.frames]⟩ := by
  simp [World.stacks]

theorem World.weigh_stacks (w : World) (weight : Frame → Nat) :
    w.stacks.weigh weight = w.weigh weight := by
  simp only [Stacks.weigh, World.stacks, tally_map, World.weigh]

namespace Frame

variable {choice : Choice} {s s' : Shared} {f : Frame} {fs : List Frame}

theorem Steps.capacity (h : f.Steps choice s s' fs) :
    s'.receiveBuffer.capacity = s.receiveBuffer.capacity := by
  cases h
  case committed hroom => exact congrArg List.length (RingBuffer.commitWrite_eq_some.mp hroom).2.1
  case popped hpop =>
    obtain ⟨-, -, hconsume⟩ := RingBuffer.pop_eq_some hpop
    exact congrArg List.length (RingBuffer.consume_eq_some hconsume).2.1
  all_goals rfl

end Frame

theorem Shared.Arrived.capacity {s s' : Shared} {event : Event} {t' : Thread}
    (h : s.Arrived event s' t') : s'.receiveBuffer.capacity = s.receiveBuffer.capacity := by
  cases h with
  | recvCompletion => exact RingBuffer.fill_capacity _ _
  | _ => rfl

/-- The rule of the token, for as long as the session is connected: a step of its owner
leads from one stage to the next, and whatever else happens leaves the stage alone or
starts from the idle state. `P` is what is known of the receive ring's capacity. -/
theorem fed_token {stream : List Byte} {ok : Fed World Byte → Label → Prop}
    {weight : Frame → Nat} {Stage : List Byte → Shared → Frame → Prop}
    {Idle : List Byte → Shared → Prop} {P : Nat → Prop}
    (hguard : weight .guardCheck = 0)
    (hone : ∀ {w : Fed World Byte}, (fedSession stream).Reach ok w →
      P w.state.shared.receiveBuffer.capacity → w.state.shared.disconnectRequested = false →
      w.state.weigh weight ≤ 1)
    (hinit : ∀ s, machine.start s → Idle [] s)
    (howner : ∀ (w : World) taken tid choice t f rest, (fedSession stream).Reach ok ⟨w, taken⟩ →
      ok ⟨w, taken⟩ (.run tid choice) → w.threads[tid]? = some t → t.frames = f :: rest →
      P w.shared.receiveBuffer.capacity →
      (f.exec choice w.shared).1.disconnectRequested = false → 0 < weight f →
      Stage taken w.shared f → Stacks.Settled weight (Stage taken) (Idle taken)
        (f.exec choice w.shared).1 (f.exec choice w.shared).2)
    (hother : ∀ (w : World) taken tid choice t f rest, (fedSession stream).Reach ok ⟨w, taken⟩ →
      ok ⟨w, taken⟩ (.run tid choice) → w.threads[tid]? = some t → t.frames = f :: rest →
      P w.shared.receiveBuffer.capacity →
      (f.exec choice w.shared).1.disconnectRequested = false → weight f = 0 →
      (∀ g, 0 < weight g → Stage taken w.shared g → Stage taken (f.exec choice w.shared).1 g) ∧
      (Idle taken w.shared → Stacks.Settled weight (Stage taken) (Idle taken)
        (f.exec choice w.shared).1 (f.exec choice w.shared).2))
    (hrelease : ∀ taken s, (∀ g, Stage taken s g → Stage taken s.release.1 g) ∧
      (Idle taken s → Idle taken s.release.1))
    (harrive : ∀ (w : World) taken event s' t', (fedSession stream).Reach ok ⟨w, taken⟩ →
      ok ⟨w, taken⟩ (.spawn event) → w.shared.Arrived event s' t' →
      P w.shared.receiveBuffer.capacity → s'.disconnectRequested = false →
      (0 < w.weigh weight → ∀ g, 0 < weight g → Stage taken w.shared g →
        Stage (taken ++ event.brings) s' g) ∧
      (w.weigh weight = 0 → Idle taken w.shared →
        Stacks.Settled weight (Stage (taken ++ event.brings)) (Idle (taken ++ event.brings))
          s' t'.frames))
    {w : Fed World Byte} (hw : (fedSession stream).Reach ok w)
    (hP : P w.state.shared.receiveBuffer.capacity)
    (hdisc : w.state.shared.disconnectRequested = false) :
    Stacks.Staged weight (Stage w.taken) (Idle w.taken) w.state.stacks := by
  revert hP hdisc
  refine Foundation.Feed.invariant (I := fun (w : World) taken =>
    P w.shared.receiveBuffer.capacity → w.shared.disconnectRequested = false →
      Stacks.Staged weight (Stage taken) (Idle taken) w.stacks) ?_ ?_ ?_ hw
  · intro s hstart _ _
    exact ⟨by simp [World.stacks], fun _ => hinit s hstart⟩
  · intro (w : World) taken tid choice t s' t' hreach ih hok hthread hrun hP hdisc'
    have hnext := hone (reach_run hreach hok hthread hrun) hP hdisc'
    rw [← World.weigh_stacks, World.stacks_set] at hnext
    rw [World.stacks_set]
    cases Thread.ran_of_run hrun with
    | @exec f rest hframes =>
      have hdisc := disconnectRequested_of_exec hdisc'
      rw [(f.steps_exec choice w.shared).capacity] at hP
      have hstack : w.stacks.threads[tid]? = some (f :: rest) := by
        simp [World.stacks, hthread, hframes]
      rcases Nat.eq_zero_or_pos (weight f) with hzero | hpos
      · obtain ⟨hframe, hfs⟩ := hother w taken tid choice t f rest hreach hok hthread hframes
          hP hdisc' hzero
        exact (ih hP hdisc).other hstack hzero hnext hframe hfs
      · have hle := hone hreach hP hdisc
        rw [← World.weigh_stacks] at hle
        have hstage := (ih hP hdisc).stage _ (List.mem_of_getElem? hstack) f List.mem_cons_self hpos
        exact Stacks.Staged.owner hle hstack hpos
          (howner w taken tid choice t f rest hreach hok hthread hframes hP hdisc' hpos hstage)
    | release hframes hkind =>
      have hcheck : ∀ g ∈ w.shared.release.2, g = .guardCheck := by
        intro g hg
        simp only [Shared.release] at hg
        split at hg <;> simp_all
      refine (ih hP hdisc').congr ?_ ?_ (hrelease taken w.shared).1 (hrelease taken w.shared).2
      · intro stack hstack g hg hpos
        rcases List.mem_or_eq_of_mem_set hstack with hold | rfl
        · exact ⟨stack, hold, hg⟩
        · rw [hcheck g hg, hguard] at hpos
          omega
      · have hweigh := World.weigh_release weight hthread hframes w.shared.release.1 none
          w.shared.release.2
        rw [Shared.tally_release hguard, ← World.weigh_stacks, ← World.weigh_stacks,
          World.stacks_set] at hweigh
        exact hweigh
  · intro (w : World) taken event s' t' hreach ih hok hfront hspawn hP hdisc'
    have harrived := Shared.arrived_of_arrive hspawn
    have hnext := hone (reach_spawn hreach hok hfront hspawn) hP hdisc'
    have hdisc : w.shared.disconnectRequested = false := by
      cases harrived <;> exact hdisc'
    rw [harrived.capacity] at hP
    obtain ⟨hframe, hfs⟩ := harrive w taken event s' t' hreach hok harrived hP hdisc'
    rw [← World.weigh_stacks] at hframe hfs hnext
    rw [World.stacks_append] at hnext ⊢
    rcases Nat.eq_zero_or_pos (w.stacks.weigh weight) with hzero | hpos
    · exact Stacks.Staged.arrive_none hzero (hfs hzero ((ih hP hdisc).idle hzero))
    · exact (ih hP hdisc).arrive_some hpos hnext (hframe hpos)

end FastPort.Sessions
