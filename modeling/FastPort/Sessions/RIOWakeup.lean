import FastPort.Sessions.RIOReceiveLoop

/-! The send side inside the whole session, and who sends what waits in it. A critical
section that leaves bytes behind leaves a posted send, a completion or a flush that will
look at them, as long as the request queue takes what `RIOSend` hands it. -/
namespace FastPort.Sessions.Rio.Duplex

open FastPort.Commons FastPort.Foundation.Circular FastPort.Foundation.Pool
open FastPort.Foundation.Stack FastPort.Foundation.Tally FastPort.Foundation.Transition
open FastPort.Foundation.Transition.System

namespace Frame

def sent (weight : Rio.Frame → Nat) : Frame → Nat
  | send f => weight f
  | _ => 0

theorem exec_send (choice : Choice) (s : Shared) (f : Rio.Frame) :
    ((Frame.send f).exec choice s).1.toShared = (f.exec choice.accepted s.toShared).1 ∧
      ∀ weight, tally (sent weight) ((Frame.send f).exec choice s).2 =
        (f.exec choice.accepted s.toShared).2.elim 0 weight := by
  have hnext : ∀ (next : Option Rio.Frame) (weight : Rio.Frame → Nat),
      tally (sent weight) (next.toList.map .send) = next.elim 0 weight := by
    intro next weight
    cases next <;> simp [sent]
  cases f with
  | onDisconnected => exact ⟨rfl, fun weight => rfl⟩
  | _ => exact ⟨rfl, fun weight => hnext _ weight⟩

theorem exec_other {choice : Choice} {s : Shared} {f : Frame} (hf : ∀ g, f ≠ .send g) :
    (f.exec choice s).1.toShared = s.toShared ∧ ∀ weight : Rio.Frame → Nat,
      weight .disconnect = 0 → (∀ m, weight (.checkDisconnected m) = 0) →
        tally (sent weight) (f.exec choice s).2 = 0 := by
  have hstep := f.steps_exec choice s
  generalize (f.exec choice s).1 = s' at hstep ⊢
  generalize (f.exec choice s).2 = fs at hstep ⊢
  cases hstep with
  | stored | announced | sent => exact absurd rfl (hf _)
  | _ => simp_all [Frame.sent]

end Frame

variable {ok : World → Label → Prop} {w : World}

def World.weighSent (w : World) (weight : Rio.Frame → Nat) : Nat :=
  w.weigh (Frame.sent weight)

theorem draining_eq_zero (h : World.weighSent w Rio.Frame.owner = 0) :
    World.weighSent w Rio.Frame.draining = 0 := by
  apply Stacks.weigh_eq_zero.mpr
  intro stack hstack f hf
  have howner := Stacks.weigh_eq_zero.mp h stack hstack f hf
  cases f with
  | send g =>
    cases g with
    | sendCompletion success n => cases howner
    | consume n => cases howner
    | _ => rfl
  | _ => rfl

theorem streaming (hw : system.Reach ok w) : Streaming w.shared.toShared
    (World.weighSent w Rio.Frame.owner) (World.weighSent w Rio.Frame.draining) := by
  refine Program.invariant (p := program) (I := fun w => Streaming w.shared.toShared
    (World.weighSent w Rio.Frame.owner) (World.weighSent w Rio.Frame.draining)) ?_ ?_ ?_ hw
  · rintro s ⟨recvSlice, sendSlice, recvMemory, sendMemory, -, hmemory, rfl⟩
    exact ⟨hmemory, rfl, by simp [Shared.initial, Rio.Shared.initial, Unfinished], rfl,
      Nat.zero_le _, Nat.zero_le _, rfl, by simp [Shared.initial, Rio.Shared.initial]⟩
  · intro w tid choice f rest _ ih _ hthread
    have hweigh := fun weight => Stacks.weigh_exec (Frame.sent weight) hthread
      (f.exec choice w.shared).1 (f.exec choice w.shared).2
    by_cases hf : ∃ g, f = .send g
    · obtain ⟨g, rfl⟩ := hf
      obtain ⟨hshared, hfs⟩ := Frame.exec_send choice w.shared g
      have howner := hweigh Rio.Frame.owner
      have hdraining := hweigh Rio.Frame.draining
      rw [hfs] at howner hdraining
      simp only [program, hshared]
      exact ih.exec choice.accepted g howner hdraining draining_eq_zero
    · obtain ⟨hshared, hfs⟩ := @Frame.exec_other choice w.shared _
        (fun g hg => hf ⟨g, hg⟩)
      have hnone : ∀ weight, Frame.sent weight f = 0 := by
        intro weight
        cases f with
        | send g => exact absurd ⟨g, rfl⟩ hf
        | _ => rfl
      have hsame : ∀ weight : Rio.Frame → Nat, weight .disconnect = 0 →
          (∀ m, weight (.checkDisconnected m) = 0) →
          Stacks.weigh ⟨(f.exec choice w.shared).1,
            w.threads.set tid ((f.exec choice w.shared).2 ++ rest)⟩ (Frame.sent weight) =
          w.weigh (Frame.sent weight) := by
        intro weight hdisconnect hcheck
        have := hweigh weight
        rw [hfs weight hdisconnect hcheck, hnone] at this
        exact this
      have howner := hsame Rio.Frame.owner rfl fun _ => rfl
      have hdraining := hsame Rio.Frame.draining rfl fun _ => rfl
      simp only [program, World.weighSent, hshared] at howner hdraining ⊢
      rw [howner, hdraining]
      exact ih
  · intro w event s' fs _ ih _ harrived
    have hweigh : ∀ weight, World.weighSent ⟨s', w.threads ++ [fs]⟩ weight =
        World.weighSent w weight + tally (Frame.sent weight) fs :=
      fun weight => Stacks.weigh_spawn (Frame.sent weight) w s' fs
    rw [hweigh, hweigh]
    cases event with
    | startReceiveLoop =>
      cases harrived
      exact ih
    | sendMessage m =>
      cases harrived
      exact ih
    | recvCompletion index success data =>
      simp only [program, Shared.arrive] at harrived
      split at harrived
      · cases harrived
      · split at harrived
        · cases harrived
          exact ih
        · cases harrived
    | sendCompletion index success n =>
      simp only [program, Shared.arrive, Shared.arriveSend, Rio.Shared.arrive] at harrived
      split at harrived
      · cases harrived
      · rename_i hsend
        split at harrived
        · rename_i hn
          cases harrived
          cases success with
          | true => exact ih.complete draining_eq_zero hsend hn
          | false => exact ih.complete draining_eq_zero hsend hn
        · cases harrived

theorem flushQueue_size_pos {q : RingBuffer} {total : Nat} {queue : List PendingPacket}
    (hunfinished : Unfinished queue) (htotal : total = pendingBytes queue)
    (hcap : 0 < q.capacity) (hsome : queue ≠ []) : 0 < (flushQueue q total queue).1.size := by
  obtain ⟨p, rest, rfl⟩ := List.exists_cons_of_ne_nil hsome
  have hp : p.offset < p.data.length := hunfinished p List.mem_cons_self
  have hrest : Unfinished rest := fun u hu => hunfinished u (List.mem_cons_of_mem _ hu)
  have hsize := RingBuffer.size_add_canWriteSize (q := q)
  rw [flushQueue, RingBuffer.getWriteableBuffers_fst]
  by_cases hfull : q.canWriteSize = 0
  · rw [if_pos hfull]
    change 0 < q.size
    omega
  rw [if_neg hfull]
  obtain ⟨q', hcopied, hcommit, hgrown⟩ := flushQueue_turn q p
    (Nat.min_le_left (p.data.length - p.offset) q.canWriteSize) (Nat.min_le_right _ _)
  have hpos : 0 < q'.size := by
    rw [hgrown.size, List.length_take, List.length_drop]
    omega
  simp only [hcopied, hcommit]
  split
  · have hleft : total - p.data.length = pendingBytes rest := by
      rw [htotal, pendingBytes, tally_cons, Nat.add_sub_cancel_left]
      rfl
    obtain ⟨more, hmore, -⟩ := flushQueue_spec q' hrest hleft
    rw [hmore.size]
    omega
  · exact hpos

def flushing : Rio.Frame → Nat
  | .flushPendingSendQueue => 1
  | _ => 0

/-- The store of `m_bIsDisconnected`, which a failed completion leads to. -/
def breaking : Rio.Frame → Nat
  | .disconnect => 1
  | _ => 0

/-- The send side of a session with `owners` completions at work, `flushes` that are about
to look at the ring and `endings` that are about to store the flag: a send in progress
belongs to somebody, and without one nothing waits that nobody is to look at. -/
structure Attended (s : Rio.Shared) (owners flushes endings : Nat) : Prop where
  owned : s.isDisconnected = false → s.sendInProgress = true →
    0 < s.rioSends.length + owners + endings
  seen : s.isDisconnected = false → s.sendInProgress = false →
    (s.sendBuffer.size = 0 ∧ s.pendingSendQueue = []) ∨ 0 < flushes

theorem flush_attended {s : Rio.Shared} {owners drained flushes endings : Nat}
    (h : Streaming s owners drained) (hcap : 0 < s.sendBuffer.capacity)
    (hattended : Attended s owners flushes endings) :
    Attended (flushPendingSendQueue true s) owners 0 endings := by
  obtain ⟨more, hgrown, hsplit, hunfinished, htotal⟩ :=
    flushQueue_spec s.sendBuffer h.unfinished h.total
  unfold flushPendingSendQueue tryPostSendFromQueue
  dsimp only
  split
  · rename_i hbusy
    exact ⟨fun hdisc _ => hattended.owned hdisc hbusy, fun _ hfree => by simp [hbusy] at hfree⟩
  · rename_i hfree
    split
    · rename_i hempty
      rw [RingBuffer.getReadBuffers_fst] at hempty
      refine ⟨fun _ hbusy => absurd hbusy hfree, fun _ _ => .inl ⟨hempty, ?_⟩⟩
      by_contra hqueue
      have hsome : s.pendingSendQueue ≠ [] := by
        intro hnil
        apply hqueue
        simp [hnil, flushQueue]
      have hpos := flushQueue_size_pos h.unfinished h.total hcap hsome
      omega
    · refine ⟨fun _ _ => ?_, fun _ hfree' => by simp at hfree'⟩
      simp only [if_true, List.length_append, List.length_singleton]
      omega

/-- Every step of the send side keeps what waits attended. -/
theorem Attended.exec {s : Rio.Shared} {owners drained flushes endings owners' flushes'
    endings' : Nat} (h : Attended s owners flushes endings) (hstream : Streaming s owners drained)
    (hcap : 0 < s.sendBuffer.capacity) (accepted : Bool) (f : Rio.Frame)
    (haccepted : f = .flushPendingSendQueue → accepted = true)
    (howner : owners' + f.owner = owners + (f.exec accepted s).2.elim 0 Rio.Frame.owner)
    (hflush : flushes' + flushing f = flushes + (f.exec accepted s).2.elim 0 flushing)
    (hending : endings' + breaking f = endings + (f.exec accepted s).2.elim 0 breaking) :
    Attended (f.exec accepted s).1 owners' flushes' endings' := by
  have hkeep : owners + endings ≤ owners' + endings' → flushes ≤ flushes' →
      Attended s owners' flushes' endings' := by
    intro howned hflushes
    refine ⟨fun hdisc hbusy => ?_, fun hdisc hfree => (h.seen hdisc hfree).imp_right fun hpos => ?_⟩
    · have := h.owned hdisc hbusy
      omega
    · omega
  cases f with
  | checkDisconnected m =>
    cases hdisc : s.isDisconnected <;>
      simp only [Rio.Frame.exec, hdisc, Rio.Frame.owner, flushing, breaking, if_true, if_false,
        Bool.false_eq_true, Option.elim] at howner hflush hending ⊢ <;>
      exact hkeep (by omega) (by omega)
  | checkPending m =>
    by_cases hmany : s.pendingTotalBytes > maxPendingBytes <;>
      simp only [Rio.Frame.exec, hmany, Rio.Frame.owner, flushing, breaking, if_true, if_false,
        Option.elim] at howner hflush hending ⊢ <;>
      exact hkeep (by omega) (by omega)
  | enqueue m =>
    have hsame : (Rio.enqueue m s).isDisconnected = s.isDisconnected ∧
        (Rio.enqueue m s).sendInProgress = s.sendInProgress ∧
        (Rio.enqueue m s).rioSends = s.rioSends := by
      unfold Rio.enqueue
      dsimp only
      split
      · split <;> exact ⟨rfl, rfl, rfl⟩
      · exact ⟨rfl, rfl, rfl⟩
    obtain ⟨hdisc, hbusy, hsends⟩ := hsame
    simp only [Rio.Frame.exec, Rio.Frame.owner, flushing, breaking, Option.elim]
      at howner hflush hending ⊢
    refine ⟨fun hdisc' hbusy' => ?_, fun _ _ => .inr (by omega)⟩
    have := h.owned (hdisc.symm.trans hdisc') (hbusy.symm.trans hbusy')
    rw [hsends]
    omega
  | flushPendingSendQueue =>
    obtain rfl := haccepted rfl
    obtain rfl : owners' = owners := howner
    obtain rfl : endings' = endings := hending
    have hflushed := flush_attended hstream hcap h
    exact ⟨hflushed.owned, fun hdisc hfree =>
      (hflushed.seen hdisc hfree).imp_right fun hpos => by omega⟩
  | sendCompletion success n =>
    cases success <;>
      simp only [Rio.Frame.exec, Rio.Frame.owner, flushing, breaking, if_true, if_false,
        Bool.false_eq_true, Option.elim] at howner hflush hending ⊢ <;>
      exact hkeep (by omega) (by omega)
  | consume n =>
    simp only [Rio.Frame.exec, Rio.Frame.owner, flushing, breaking, Option.elim]
      at howner hflush hending ⊢
    exact ⟨fun _ hbusy => by simp [Rio.consume] at hbusy, fun _ _ => .inr (by omega)⟩
  | disconnect =>
    exact ⟨fun hdisc => by simp [Rio.Frame.exec] at hdisc,
      fun hdisc => by simp [Rio.Frame.exec] at hdisc⟩
  | onDisconnected =>
    have hsame := hkeep (by
      simp only [Rio.Frame.exec, Rio.Frame.owner, breaking, Option.elim] at howner hending
      omega) (by
      simp only [Rio.Frame.exec, flushing, Option.elim] at hflush
      omega)
    exact ⟨hsame.owned, hsame.seen⟩

theorem Attended.mono {s : Rio.Shared} {owners flushes endings endings' : Nat}
    (h : Attended s owners flushes endings) (hle : endings ≤ endings') :
    Attended s owners flushes endings' where
  owned := fun hdisc hbusy => by
    have := h.owned hdisc hbusy
    omega
  seen := h.seen

theorem exec_sendSlice (accepted : Bool) (s : Rio.Shared) (f : Rio.Frame) :
    (f.exec accepted s).1.sendSlice = s.sendSlice ∧
      (f.exec accepted s).1.transferred = s.transferred := by
  cases f with
  | enqueue m =>
    simp only [Rio.Frame.exec, Rio.enqueue]
    split
    · split <;> exact ⟨rfl, rfl⟩
    · exact ⟨rfl, rfl⟩
  | flushPendingSendQueue =>
    simp only [Rio.Frame.exec, flushPendingSendQueue, tryPostSendFromQueue]
    split
    · exact ⟨rfl, rfl⟩
    · split
      · exact ⟨rfl, rfl⟩
      · split <;> exact ⟨rfl, rfl⟩
  | _ => exact ⟨rfl, rfl⟩

/-- The request queue takes every send that a flush posts. -/
def takesSends (w : World) : Label → Prop
  | .run tid choice => ∀ f ∈ w.runs (.run tid choice : Label),
      f = .send .flushPendingSendQueue → choice.accepted = true
  | .spawn _ => True

instance (w : World) : (l : Label) → Decidable (takesSends w l)
  | .run _ _ => inferInstanceAs (Decidable (∀ f ∈ (_ : Option _), _ → _))
  | .spawn _ => .isTrue trivial

/-- In every run in which no `RIOSend` fails. -/
theorem attended (hw : system.Reach takesSends w) : 0 < w.shared.sendSlice.length →
    Attended w.shared.toShared (World.weighSent w Rio.Frame.owner) (World.weighSent w flushing)
      (World.weighSent w breaking) := by
  refine Program.invariant (p := program) (I := fun w => 0 < w.shared.sendSlice.length →
    Attended w.shared.toShared (World.weighSent w Rio.Frame.owner) (World.weighSent w flushing)
      (World.weighSent w breaking)) ?_ ?_ ?_ hw
  · rintro s ⟨recvSlice, sendSlice, recvMemory, sendMemory, -, -, rfl⟩ _
    refine ⟨fun _ hbusy => ?_, fun _ _ => .inl ⟨rfl, rfl⟩⟩
    cases hbusy
  · intro w tid choice f rest hreach ih hok hthread hslice
    have hstream := streaming hreach
    have hweigh := fun weight => Stacks.weigh_exec (Frame.sent weight) hthread
      (f.exec choice w.shared).1 (f.exec choice w.shared).2
    by_cases hf : ∃ g, f = .send g
    · obtain ⟨g, rfl⟩ := hf
      obtain ⟨hshared, hfs⟩ := Frame.exec_send choice w.shared g
      have hbefore : 0 < w.shared.sendSlice.length := by
        simp only [program, hshared, (exec_sendSlice _ _ _).1] at hslice
        exact hslice
      have howner := hweigh Rio.Frame.owner
      have hflush := hweigh flushing
      have hending := hweigh breaking
      rw [hfs] at howner hflush hending
      have haccepted : g = .flushPendingSendQueue → choice.accepted = true := by
        rintro rfl
        exact hok _ (Stacks.runs_eq hthread) rfl
      simp only [program, hshared]
      exact (ih hbefore).exec hstream (hstream.capacity ▸ hbefore) choice.accepted g haccepted
        howner hflush hending
    · obtain ⟨hshared, hfs⟩ := @Frame.exec_other choice w.shared _
        (fun g hg => hf ⟨g, hg⟩)
      have hnone : ∀ weight, Frame.sent weight f = 0 := by
        intro weight
        cases f with
        | send g => exact absurd ⟨g, rfl⟩ hf
        | _ => rfl
      have howner := hweigh Rio.Frame.owner
      have hflush := hweigh flushing
      have hending := hweigh breaking
      rw [hnone, hfs _ rfl fun _ => rfl, Nat.add_zero, Nat.add_zero] at howner hflush
      rw [hnone] at hending
      simp only [program, hshared] at hslice ⊢
      have hmore : World.weighSent w breaking ≤ World.weighSent ⟨(f.exec choice w.shared).1,
          w.threads.set tid ((f.exec choice w.shared).2 ++ rest)⟩ breaking := by
        unfold World.weighSent
        omega
      have hsame := (ih hslice).mono hmore
      simp only [World.weighSent] at hsame ⊢
      rwa [← howner, ← hflush] at hsame
  · intro w event s' fs _ ih _ harrived hslice
    have hweigh : ∀ weight, World.weighSent ⟨s', w.threads ++ [fs]⟩ weight =
        World.weighSent w weight + tally (Frame.sent weight) fs :=
      fun weight => Stacks.weigh_spawn (Frame.sent weight) w s' fs
    rw [hweigh, hweigh, hweigh]
    cases event with
    | startReceiveLoop | sendMessage =>
      cases harrived
      exact ih hslice
    | recvCompletion index success data =>
      simp only [program, Shared.arrive] at harrived
      split at harrived
      · cases harrived
      · split at harrived
        · cases harrived
          exact ih hslice
        · cases harrived
    | sendCompletion index success n =>
      simp only [program, Shared.arrive, Shared.arriveSend, Rio.Shared.arrive] at harrived
      split at harrived
      · cases harrived
      · rename_i hsend
        split at harrived
        · cases harrived
          have hbefore := ih hslice
          refine ⟨fun hdisc hbusy => ?_, hbefore.seen⟩
          simp [Frame.sent, Rio.Frame.owner]
        · cases harrived

/-- No send wake-up is lost: while a session is connected and no `RIOSend` fails, whatever
waits in the ring or in the queue of a session at rest has a send pending before it. -/
theorem rio_send_pending_at_rest {w : World} (hw : system.Reach takesSends w)
    (hslice : 0 < w.shared.sendSlice.length) (hquiet : ∀ stack ∈ w.threads, stack = [])
    (hdisc : w.shared.isDisconnected = false)
    (hsome : w.shared.sendBuffer.size ≠ 0 ∨ w.shared.pendingSendQueue ≠ []) :
    w.shared.rioSends ≠ [] := by
  have hnone : ∀ weight, World.weighSent w weight = 0 := by
    intro weight
    apply Stacks.weigh_eq_zero.mpr
    intro stack hstack f hf
    rw [hquiet stack hstack] at hf
    cases hf
  have hattended := attended hw hslice
  rw [hnone, hnone, hnone] at hattended
  cases hbusy : w.shared.sendInProgress with
  | true => exact List.ne_nil_of_length_pos (hattended.owned hdisc hbusy)
  | false =>
    rcases hattended.seen hdisc hbusy with ⟨hempty, hqueue⟩ | hpos
    · exact absurd hsome (by simp [hempty, hqueue])
    · cases hpos

/-- Two messages and a slice of 8 bytes: the second one is queued in part, and the first
one is pending. -/
def queueingRun : List Label :=
  .spawn (.sendMessage ⟨1, [7, 8]⟩) :: List.replicate 4 (.run 0 ⟨true, none⟩) ++
    .spawn (.sendMessage ⟨2, [9]⟩) :: List.replicate 4 (.run 1 ⟨true, none⟩)

theorem rio_send_pending_at_rest_of_queue : ∃ w : World,
    system.runUnder takesSends (World.fresh 16 8 (by decide) (by decide)) queueingRun = some w ∧
      w.shared.pendingSendQueue ≠ [] ∧ w.shared.rioSends ≠ [] := by
  obtain ⟨w, hrun, hat⟩ := exists_of_runUnder system takesSends
    (World.fresh 16 8 (by decide) (by decide)) queueingRun (fun w =>
      decide (w.shared.sendSlice.length = 8) && w.threads.all (fun stack => stack.isEmpty) &&
        !w.shared.isDisconnected && !w.shared.pendingSendQueue.isEmpty) (by decide)
  simp only [Bool.and_eq_true, decide_eq_true_eq, List.all_eq_true, List.isEmpty_iff,
    Bool.not_eq_true', List.isEmpty_eq_false_iff] at hat
  obtain ⟨⟨⟨hslice, hquiet⟩, hdisc⟩, hqueue⟩ := hat
  exact ⟨w, hrun, hqueue, rio_send_pending_at_rest ((World.reach_fresh _ _).of_runUnder hrun)
    (by omega) hquiet hdisc (.inr hqueue)⟩

end FastPort.Sessions.Rio.Duplex
