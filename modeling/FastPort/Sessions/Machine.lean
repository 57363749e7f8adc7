import FastPort.Sessions.IOSession
import FastPort.Foundation.Pool

/-! A session together with the threads that work on it: callers of its
operations, and one thread for each completion the operating system delivers. -/
namespace FastPort.Sessions

open FastPort.Commons FastPort.Foundation.Pool FastPort.Foundation.Tally
open FastPort.Foundation.Transition

inductive IoKind where
  | recv
  | send
  | connect
deriving DecidableEq, Repr

/-- A stack of frames, innermost first. A completion handler runs above its
`IoCompletionGuard`, which is destroyed when the last frame has returned. -/
structure Thread where
  guard : Option IoKind
  frames : List Frame

inductive Event where
  | call (call : ApiCall)
  | connectEx
  | recvCompletion (index : Nat) (success : Bool) (data : List Byte)
  | sendCompletion (index : Nat) (success : Bool) (bytesTransferred : Nat)
  | connectCompletion (success : Bool)
deriving DecidableEq

namespace Shared

def release (s : Shared) : Shared × List Frame :=
  ({ s with outstandingIoCount := s.outstandingIoCount - 1 },
    if s.outstandingIoCount = 1 then [.guardCheck] else [])

/-- The environment starts a thread. A completion takes one pending operation
away and reports no more bytes than it was posted for; a receive has stored its
data, a successful send has transferred its first bytes. -/
def arrive (s : Shared) : Event → Option (Shared × Thread)
  | .call call => some (s, ⟨none, [call.frame]⟩)
  | .connectEx =>
      if s.socket = .null then none
      else some ({ s with connectStarted := true }, ⟨none, [.connectEx .addOutstanding]⟩)
  | .recvCompletion index success data =>
      match s.recvs[index]? with
      | none => none
      | some buffers =>
          if data.length ≤ (spanCells buffers).length ∧ data.length < 2 ^ 32 then
            some ({ s with
                recvs := s.recvs.eraseIdx index
                receiveBuffer := s.receiveBuffer.fill (spanCells buffers) data },
              ⟨some .recv, [.handleRecvCompletion (.start success data.length)]⟩)
          else none
  | .sendCompletion index success bytesTransferred =>
      match s.sends[index]? with
      | none => none
      | some buffers =>
          if bytesTransferred ≤ (spanCells buffers).length ∧ bytesTransferred < 2 ^ 32 then
            let sent := (s.sendBuffer.read (spanCells buffers)).take bytesTransferred
            some ({ s with
                sends := s.sends.eraseIdx index
                transferred := s.transferred ++ if success then sent else [] },
              ⟨some .send, [.handleSendCompletion (.start success bytesTransferred)]⟩)
          else none
  | .connectCompletion success =>
      if s.connects = 0 then none
      else some ({ s with connects := s.connects - 1 },
        ⟨some .connect, [.handleConnectCompletion (.start success)]⟩)

end Shared

namespace Thread

def run (choice : Choice) (s : Shared) (t : Thread) : Option (Shared × Thread) :=
  match t.frames, t.guard with
  | f :: rest, guard => some ((f.exec choice s).1, ⟨guard, (f.exec choice s).2 ++ rest⟩)
  | [], some _ => some (s.release.1, ⟨none, s.release.2⟩)
  | [], none => none

inductive Ran (choice : Choice) (s : Shared) (t : Thread) : Shared → Thread → Prop where
  | exec {f : Frame} {rest : List Frame} (hframes : t.frames = f :: rest) :
      Ran choice s t (f.exec choice s).1 ⟨t.guard, (f.exec choice s).2 ++ rest⟩
  | release {kind : IoKind} (hframes : t.frames = []) (hguard : t.guard = some kind) :
      Ran choice s t s.release.1 ⟨none, s.release.2⟩

theorem ran_of_run {choice : Choice} {s s' : Shared} {t t' : Thread}
    (h : t.run choice s = some (s', t')) : t.Ran choice s s' t' := by
  unfold run at h
  split at h
  · rename_i hframes
    cases h
    exact .exec hframes
  · rename_i hframes hguard
    cases h
    exact .release hframes hguard
  · cases h

/-- The sum of what a thread's guard and its frames weigh. -/
def share (guardWeight : IoKind → Nat) (w : Frame → Nat) (t : Thread) : Nat :=
  t.guard.elim 0 guardWeight + tally w t.frames

end Thread

inductive Shared.Arrived (s : Shared) : Event → Shared → Thread → Prop where
  | call (call : ApiCall) : Arrived s (.call call) s ⟨none, [call.frame]⟩
  | connectEx (hsocket : s.socket ≠ .null) :
      Arrived s .connectEx { s with connectStarted := true } ⟨none, [.connectEx .addOutstanding]⟩
  | recvCompletion {index : Nat} {success : Bool} {data : List Byte} {buffers : List Span}
      (hpending : s.recvs[index]? = some buffers)
      (hlength : data.length ≤ (spanCells buffers).length) :
      Arrived s (.recvCompletion index success data)
        { s with
          recvs := s.recvs.eraseIdx index
          receiveBuffer := s.receiveBuffer.fill (spanCells buffers) data }
        ⟨some .recv, [.handleRecvCompletion (.start success data.length)]⟩
  | sendCompletion {index : Nat} {success : Bool} {bytesTransferred : Nat} {buffers : List Span}
      (hpending : s.sends[index]? = some buffers)
      (hlength : bytesTransferred ≤ (spanCells buffers).length) :
      Arrived s (.sendCompletion index success bytesTransferred)
        { s with
          sends := s.sends.eraseIdx index
          transferred := s.transferred ++
            if success then (s.sendBuffer.read (spanCells buffers)).take bytesTransferred else [] }
        ⟨some .send, [.handleSendCompletion (.start success bytesTransferred)]⟩
  | connectCompletion {success : Bool} (hpending : s.connects ≠ 0) :
      Arrived s (.connectCompletion success) { s with connects := s.connects - 1 }
        ⟨some .connect, [.handleConnectCompletion (.start success)]⟩

theorem Shared.arrived_of_arrive {s s' : Shared} {event : Event} {t' : Thread}
    (h : s.arrive event = some (s', t')) : s.Arrived event s' t' := by
  cases event with
  | call call =>
    cases h
    exact .call call
  | connectEx =>
    simp only [arrive] at h
    split at h
    · cases h
    · rename_i hsocket
      cases h
      exact .connectEx hsocket
  | recvCompletion index success data =>
    simp only [arrive] at h
    split at h
    · cases h
    · rename_i hpending
      split at h
      · rename_i hlength
        cases h
        exact .recvCompletion hpending hlength.1
      · cases h
  | sendCompletion index success bytesTransferred =>
    simp only [arrive] at h
    split at h
    · cases h
    · rename_i hpending
      split at h
      · rename_i hlength
        cases h
        exact .sendCompletion hpending hlength.1
      · cases h
  | connectCompletion success =>
    simp only [arrive] at h
    split at h
    · cases h
    · rename_i hpending
      cases h
      exact .connectCompletion hpending

def machine : Machine Shared Thread Choice Event where
  start s := ∃ receiveBuffer sendBuffer socket,
    receiveBuffer.size = 0 ∧ sendBuffer.size = 0 ∧
      s = Shared.initial receiveBuffer sendBuffer socket
  run := Thread.run
  spawn event s := s.arrive event

abbrev World := State Shared Thread
abbrev Label := Move Choice Event

def system : System World Label := machine.system

def World.runs (w : World) : Label → Option Frame
  | .run tid _ => w.threads[tid]?.bind fun t => t.frames.head?
  | .spawn _ => none

theorem World.runs_eq {w : World} {tid : Nat} {choice : Choice} {t : Thread} {f : Frame}
    {rest : List Frame} (hthread : w.threads[tid]? = some t) (hframes : t.frames = f :: rest) :
    w.runs (.run tid choice) = some f := by
  simp [World.runs, hthread, hframes]

theorem exists_thread_of_runs {w : World} {l : Label} {f : Frame} (h : w.runs l = some f) :
    ∃ (tid : Nat) (t : Thread) (rest : List Frame),
      w.threads[tid]? = some t ∧ t.frames = f :: rest := by
  cases l with
  | run tid choice =>
    obtain ⟨t, hthread, hhead⟩ := Option.bind_eq_some_iff.mp h
    obtain ⟨rest, hframes⟩ := List.head?_eq_some_iff.mp hhead
    exact ⟨tid, t, rest, hthread, hframes⟩
  | spawn event => cases h

theorem exec_of_runs {w w' : World} {l : Label} {f : Frame}
    (hstep : system.step w l = some w') (hruns : w.runs l = some f) :
    ∃ (tid : Nat) (choice : Choice) (t : Thread) (rest : List Frame),
      l = .run tid choice ∧ w.threads[tid]? = some t ∧ t.frames = f :: rest ∧
      w' = ⟨(f.exec choice w.shared).1,
        w.threads.set tid ⟨t.guard, (f.exec choice w.shared).2 ++ rest⟩⟩ := by
  cases Machine.moved_of_step hstep with
  | spawn hspawn => cases hruns
  | @run tid choice t t' s' hthread hrun =>
    cases Thread.ran_of_run hrun with
    | release hframes hguard => simp [World.runs, hthread, hframes] at hruns
    | @exec g rest hframes =>
      obtain rfl : g = f := Option.some.inj ((World.runs_eq hthread hframes).symm.trans hruns)
      exact ⟨tid, choice, t, rest, rfl, hthread, hframes, rfl⟩

@[simp] theorem Shared.release_fst (s : Shared) :
    s.release.1 = { s with outstandingIoCount := s.outstandingIoCount - 1 } := rfl

theorem Shared.tally_release {weight : Frame → Nat} (h : weight .guardCheck = 0) (s : Shared) :
    tally weight s.release.2 = 0 := by
  unfold release
  split <;> simp [h]

def World.weigh (w : World) (weight : Frame → Nat) : Nat :=
  tally (fun t => tally weight t.frames) w.threads

theorem World.weight_le_weigh {weight : Frame → Nat} {w : World} {tid : Nat} {t : Thread}
    {f : Frame} {rest : List Frame} (hthread : w.threads[tid]? = some t)
    (hframes : t.frames = f :: rest) : weight f ≤ w.weigh weight := by
  have hle := le_tally (fun t => tally weight t.frames) (List.mem_of_getElem? hthread)
  simp only [hframes, tally_cons] at hle
  simp only [World.weigh]
  omega

theorem World.weight_le_of_runs {weight : Frame → Nat} {w : World} {l : Label} {f : Frame}
    (hruns : w.runs l = some f) : weight f ≤ w.weigh weight := by
  obtain ⟨tid, t, rest, hthread, hframes⟩ := exists_thread_of_runs hruns
  exact World.weight_le_weigh hthread hframes

theorem World.weigh_le_weigh {v weight : Frame → Nat} (h : ∀ f, v f ≤ weight f) (w : World) :
    w.weigh v ≤ w.weigh weight :=
  tally_le_tally fun _ _ => tally_le_tally fun f _ => h f

theorem World.weigh_lt_weigh {v weight : Frame → Nat} (h : ∀ f, v f ≤ weight f) {w : World}
    {tid : Nat} {t : Thread} {f : Frame} {rest : List Frame} (hthread : w.threads[tid]? = some t)
    (hframes : t.frames = f :: rest) (hlt : v f < weight f) : w.weigh v < w.weigh weight := by
  refine tally_lt_tally (fun _ _ => tally_le_tally fun g _ => h g)
    (List.mem_of_getElem? hthread) ?_
  exact tally_lt_tally (fun g _ => h g) (hframes ▸ List.mem_cons_self) hlt

theorem World.weigh_exec (weight : Frame → Nat) {w : World} {tid : Nat} {t : Thread} {f : Frame}
    {rest : List Frame} (hthread : w.threads[tid]? = some t) (hframes : t.frames = f :: rest)
    (s' : Shared) (guard : Option IoKind) (fs : List Frame) :
    World.weigh ⟨s', w.threads.set tid ⟨guard, fs ++ rest⟩⟩ weight + weight f =
      w.weigh weight + tally weight fs := by
  have hset := tally_set (fun t => tally weight t.frames) ⟨guard, fs ++ rest⟩ hthread
  simp only [hframes, tally_append, tally_cons] at hset
  simp only [World.weigh]
  omega

theorem World.weigh_exec_of_eq {weight : Frame → Nat} {w : World} {tid : Nat} {t : Thread}
    {f : Frame} {rest fs : List Frame} (hthread : w.threads[tid]? = some t)
    (hframes : t.frames = f :: rest) (s' : Shared) (guard : Option IoKind)
    (h : tally weight fs = weight f) :
    World.weigh ⟨s', w.threads.set tid ⟨guard, fs ++ rest⟩⟩ weight = w.weigh weight := by
  have hexec := World.weigh_exec weight hthread hframes s' guard fs
  omega

theorem World.weigh_replaced {weight : Frame → Nat} {w : World} {tid : Nat} {t : Thread}
    {f g : Frame} {rest : List Frame} (hthread : w.threads[tid]? = some t)
    (hframes : t.frames = f :: rest) (s' : Shared) (guard : Option IoKind)
    (h : weight g = weight f) :
    World.weigh ⟨s', w.threads.set tid ⟨guard, [g] ++ rest⟩⟩ weight = w.weigh weight :=
  World.weigh_exec_of_eq hthread hframes s' guard h

theorem World.weigh_release (weight : Frame → Nat) {w : World} {tid : Nat} {t : Thread}
    (hthread : w.threads[tid]? = some t) (hframes : t.frames = []) (s' : Shared)
    (guard : Option IoKind) (fs : List Frame) :
    World.weigh ⟨s', w.threads.set tid ⟨guard, fs⟩⟩ weight = w.weigh weight + tally weight fs := by
  have hset := tally_set (fun t => tally weight t.frames) ⟨guard, fs⟩ hthread
  simp only [hframes, tally_nil] at hset
  simp only [World.weigh]
  omega

theorem World.weigh_spawn (weight : Frame → Nat) (w : World) (s' : Shared) (t' : Thread) :
    World.weigh ⟨s', w.threads ++ [t']⟩ weight = w.weigh weight + tally weight t'.frames := by
  simp [World.weigh]

def World.frames (w : World) : List Frame :=
  w.threads.flatMap Thread.frames

theorem World.mem_frames {w : World} {tid : Nat} {t : Thread} {f : Frame} {rest : List Frame}
    (hthread : w.threads[tid]? = some t) (hframes : t.frames = f :: rest) : f ∈ w.frames :=
  List.mem_flatMap.mpr ⟨t, List.mem_of_getElem? hthread, hframes ▸ List.mem_cons_self⟩

theorem World.mem_frames_exec {w : World} {tid : Nat} {t : Thread} {f g : Frame}
    {rest fs : List Frame} {s' : Shared} {guard : Option IoKind}
    (hthread : w.threads[tid]? = some t) (hframes : t.frames = f :: rest)
    (hg : g ∈ World.frames ⟨s', w.threads.set tid ⟨guard, fs ++ rest⟩⟩) :
    g ∈ fs ∨ g ∈ w.frames := by
  obtain ⟨u, hu, hgu⟩ := List.mem_flatMap.mp hg
  rcases List.mem_or_eq_of_mem_set hu with hu | rfl
  · exact .inr (List.mem_flatMap.mpr ⟨u, hu, hgu⟩)
  · rcases List.mem_append.mp hgu with hfs | hrest
    · exact .inl hfs
    · refine .inr (List.mem_flatMap.mpr ⟨t, List.mem_of_getElem? hthread, ?_⟩)
      rw [hframes]
      exact List.mem_cons_of_mem f hrest

theorem World.mem_frames_release {w : World} {tid : Nat} {g : Frame} {fs : List Frame}
    {s' : Shared} {guard : Option IoKind}
    (hg : g ∈ World.frames ⟨s', w.threads.set tid ⟨guard, fs⟩⟩) : g ∈ fs ∨ g ∈ w.frames := by
  obtain ⟨u, hu, hgu⟩ := List.mem_flatMap.mp hg
  rcases List.mem_or_eq_of_mem_set hu with hu | rfl
  · exact .inr (List.mem_flatMap.mpr ⟨u, hu, hgu⟩)
  · exact .inl hgu

theorem World.mem_frames_spawn {w : World} {t' : Thread} {g : Frame} {s' : Shared}
    (hg : g ∈ World.frames ⟨s', w.threads ++ [t']⟩) : g ∈ t'.frames ∨ g ∈ w.frames := by
  obtain ⟨u, hu, hgu⟩ := List.mem_flatMap.mp hg
  rcases List.mem_append.mp hu with hu | hu
  · exact .inr (List.mem_flatMap.mpr ⟨u, hu, hgu⟩)
  · exact .inl (List.mem_singleton.mp hu ▸ hgu)

theorem World.weigh_eq_zero {weight : Frame → Nat} {w : World} :
    w.weigh weight = 0 ↔ ∀ f ∈ w.frames, weight f = 0 := by
  simp only [World.weigh, tally_eq_zero, World.frames, List.mem_flatMap]
  exact ⟨fun h f ⟨t, ht, hf⟩ => h t ht f hf, fun h t ht f hf => h f ⟨t, ht, hf⟩⟩

theorem World.weigh_add (v weight : Frame → Nat) (w : World) :
    w.weigh (fun f => v f + weight f) = w.weigh v + w.weigh weight := by
  unfold World.weigh
  rw [← tally_add]
  congr 1
  funext t
  exact tally_add _ _ _

theorem World.weigh_eq_of_alone {v weight : Frame → Nat} (h : ∀ g, v g = 0 → weight g = 0)
    {w : World} {tid : Nat} {t : Thread} {f : Frame} {rest : List Frame}
    (hthread : w.threads[tid]? = some t) (hframes : t.frames = f :: rest)
    (halone : w.weigh v ≤ v f) : w.weigh weight = weight f := by
  have hv := World.weigh_exec v hthread hframes w.shared t.guard []
  have hweight := World.weigh_exec weight hthread hframes w.shared t.guard []
  simp only [tally_nil] at hv hweight
  have hnone : World.weigh ⟨w.shared, w.threads.set tid ⟨t.guard, [] ++ rest⟩⟩ v = 0 := by omega
  have hzero : World.weigh ⟨w.shared, w.threads.set tid ⟨t.guard, [] ++ rest⟩⟩ weight = 0 :=
    World.weigh_eq_zero.mpr fun g hg => h g (World.weigh_eq_zero.mp hnone g hg)
  omega

/-- A session over two fresh rings, before any call. -/
def World.fresh (receiveCapacity sendCapacity : Nat) : World :=
  ⟨Shared.initial (CircleBufferQueue.create receiveCapacity)
    (CircleBufferQueue.create sendCapacity) .opened, []⟩

def Label.go (tid : Nat) : Label := .run tid ⟨true, 0, none⟩

def Label.goes (tid steps : Nat) : List Label := List.replicate steps (.go tid)

section

variable {ok : World → Label → Prop}

theorem World.reach_fresh (receiveCapacity sendCapacity : Nat) :
    system.Reach ok (World.fresh receiveCapacity sendCapacity) :=
  .init ⟨⟨_, _, _, rfl, rfl, rfl⟩, rfl⟩

theorem ledger {P : Shared → Prop} (value : Shared → Int) (guardWeight : IoKind → Nat)
    (weight : Frame → Nat)
    (hinit : ∀ receiveBuffer sendBuffer socket,
      value (Shared.initial receiveBuffer sendBuffer socket) = 0)
    (hexec : ∀ (w : World) (tid : Nat) (choice : Choice) (t : Thread) (f : Frame)
      (rest : List Frame), system.Reach ok w → ok w (.run tid choice) →
      w.threads[tid]? = some t → t.frames = f :: rest →
      (P w.shared → value w.shared = tally (Thread.share guardWeight weight) w.threads) →
      P (f.exec choice w.shared).1 → P w.shared ∧
        value (f.exec choice w.shared).1 + weight f =
          value w.shared + tally weight (f.exec choice w.shared).2)
    (hrelease : ∀ (s : Shared) (kind : IoKind), P s.release.1 → P s ∧
      value s.release.1 + guardWeight kind = value s + tally weight s.release.2)
    (harrive : ∀ (w : World) (event : Event) (s' : Shared) (t' : Thread),
      system.Reach ok w → ok w (.spawn event) → w.shared.Arrived event s' t' → P s' →
      P w.shared ∧ value s' = value w.shared + t'.share guardWeight weight)
    {w : World} (hw : system.Reach ok w) (hP : P w.shared) :
    value w.shared = tally (Thread.share guardWeight weight) w.threads := by
  refine Machine.ledger (m := machine) value (Thread.share guardWeight weight) ?_ ?_ ?_ hw hP
  · rintro s ⟨receiveBuffer, sendBuffer, socket, -, -, rfl⟩
    exact hinit receiveBuffer sendBuffer socket
  · intro w tid choice t s' t' hreach hok ih hthread hrun hP'
    cases Thread.ran_of_run hrun with
    | @exec f rest hframes =>
      obtain ⟨hP, hvalue⟩ := hexec w tid choice t f rest hreach hok hthread hframes ih hP'
      refine ⟨hP, ?_⟩
      simp only [Thread.share, hframes, tally_append, tally_cons]
      omega
    | @release kind hframes hguard =>
      obtain ⟨hP, hvalue⟩ := hrelease w.shared kind hP'
      refine ⟨hP, ?_⟩
      simp only [Thread.share, hframes, hguard, Option.elim, tally_nil]
      omega
  · intro w event s' t' hreach hok hspawn hP'
    exact harrive w event s' t' hreach hok (Shared.arrived_of_arrive hspawn) hP'

theorem World.weigh_eq_tally (w : World) (weight : Frame → Nat) :
    w.weigh weight = tally (Thread.share (fun _ => 0) weight) w.threads := by
  unfold World.weigh
  congr 1
  funext t
  cases h : t.guard <;> simp [Thread.share, h]

/-- The ledger rule for shares that only frames hold; the end of a handler does
not touch the quantity. -/
theorem frame_ledger {P : Shared → Prop} (value : Shared → Int) (weight : Frame → Nat)
    (hguard : weight .guardCheck = 0)
    (hinit : ∀ receiveBuffer sendBuffer socket,
      value (Shared.initial receiveBuffer sendBuffer socket) = 0)
    (hexec : ∀ (w : World) (tid : Nat) (choice : Choice) (t : Thread) (f : Frame)
      (rest : List Frame), system.Reach ok w → ok w (.run tid choice) →
      w.threads[tid]? = some t → t.frames = f :: rest →
      (P w.shared → value w.shared = w.weigh weight) →
      P (f.exec choice w.shared).1 → P w.shared ∧
        value (f.exec choice w.shared).1 + weight f =
          value w.shared + tally weight (f.exec choice w.shared).2)
    (hrelease : ∀ s : Shared, P s.release.1 → P s ∧ value s.release.1 = value s)
    (harrive : ∀ (w : World) (event : Event) (s' : Shared) (t' : Thread),
      system.Reach ok w → ok w (.spawn event) → w.shared.Arrived event s' t' → P s' →
      P w.shared ∧ value s' = value w.shared + tally weight t'.frames)
    {w : World} (hw : system.Reach ok w) (hP : P w.shared) :
    value w.shared = w.weigh weight := by
  rw [World.weigh_eq_tally]
  refine ledger value (fun _ => 0) weight hinit ?_ ?_ ?_ hw hP
  · intro w tid choice t f rest hreach hok hthread hframes ih
    rw [← World.weigh_eq_tally] at ih
    exact hexec w tid choice t f rest hreach hok hthread hframes ih
  · intro s kind hP'
    obtain ⟨hP, hvalue⟩ := hrelease s hP'
    refine ⟨hP, ?_⟩
    rw [hvalue, Shared.tally_release hguard]
  · intro w event s' t' hreach hok harrived hP'
    obtain ⟨hP, hvalue⟩ := harrive w event s' t' hreach hok harrived hP'
    refine ⟨hP, ?_⟩
    cases hkind : t'.guard <;> simp [Thread.share, hkind, hvalue]

end

end FastPort.Sessions
