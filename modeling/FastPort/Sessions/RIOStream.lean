import FastPort.Sessions.RIOSession

/-! The send side of `RIOSession` refines one byte stream: what was consumed, the
content of the ring and the rest of the queue are the accepted messages, and the
one posted send is a stable leading part of the ring. -/
namespace FastPort.Sessions.Rio

open FastPort.Commons FastPort.Foundation.Circular FastPort.Foundation.Pool
open FastPort.Foundation.Tally FastPort.Foundation.Transition
open FastPort.Foundation.Transition.System

def remainders (queue : List PendingPacket) : List Byte :=
  (queue.map fun p => p.data.drop p.offset).flatten

@[simp] theorem remainders_nil : remainders [] = [] := rfl

@[simp] theorem remainders_cons (p : PendingPacket) (queue : List PendingPacket) :
    remainders (p :: queue) = p.data.drop p.offset ++ remainders queue := rfl

@[simp] theorem remainders_append (left right : List PendingPacket) :
    remainders (left ++ right) = remainders left ++ remainders right := by
  simp [remainders]

/-- What `m_PendingTotalBytes` counts: queued packets in full. -/
def pendingBytes (queue : List PendingPacket) : Nat :=
  tally (fun p => p.data.length) queue

def Unfinished (queue : List PendingPacket) : Prop :=
  ∀ p ∈ queue, p.offset < p.data.length

structure Grown (q q' : RingBuffer) (more : List Byte) : Prop where
  capacity : q'.capacity = q.capacity
  tail : q'.tail = q.tail
  content : q'.content = q.content ++ more

theorem Grown.refl (q : RingBuffer) : Grown q q [] :=
  ⟨rfl, rfl, (List.append_nil _).symm⟩

theorem Grown.trans {q q' q'' : RingBuffer} {more further : List Byte} (h : Grown q q' more)
    (h' : Grown q' q'' further) : Grown q q'' (more ++ further) where
  capacity := h'.capacity.trans h.capacity
  tail := h'.tail.trans h.tail
  content := by rw [h'.content, h.content, List.append_assoc]

theorem Grown.size {q q' : RingBuffer} {more : List Byte} (h : Grown q q' more) :
    q'.size = q.size + more.length := by
  rw [← RingBuffer.length_content, h.content, List.length_append, RingBuffer.length_content]

theorem grown_of_write {q q' : RingBuffer} {data : List Byte} (h : q.write data = some q') :
    Grown q q' data :=
  ⟨(RingBuffer.write_spec h).2.1, (RingBuffer.write_spec h).2.2.1, RingBuffer.content_write h⟩

theorem copyToSpans_spec (q : RingBuffer) (spans : List Span) (src : List Byte) {n : Nat}
    (hsrc : n ≤ src.length) (hroom : n ≤ (spanCells spans).length) :
    copyToSpans q spans src n = (q.fill (spanCells spans) (src.take n), n) := by
  induction spans generalizing q src n with
  | nil =>
    obtain rfl : n = 0 := by simpa using hroom
    simp [copyToSpans]
  | cons span rest ih =>
    simp only [spanCells_cons, List.length_append, Span.length_cells] at hroom
    unfold copyToSpans
    by_cases hzero : n = 0
    · simp [hzero]
    rw [if_neg hzero]
    dsimp only
    rw [ih _ _ (show _ ≤ (src.drop (min n span.length)).length by rw [List.length_drop]; omega)
      (by omega)]
    by_cases hinside : n ≤ span.length
    · -- the copy ends inside this block
      have hcells : (span.cells ++ spanCells rest).take (src.take n).length =
          List.range' span.offset n := by
        rw [List.length_take, Nat.min_eq_left hsrc,
          List.take_append_of_le_length (by simpa using hinside), Span.cells, take_range',
          Nat.min_eq_left hinside]
      rw [Nat.min_eq_left hinside, Nat.sub_self, List.take_zero, RingBuffer.fill_nil,
        spanCells_cons, ← RingBuffer.fill_take (span.cells ++ _), hcells, Nat.add_zero]
    · have hmin : min n span.length = span.length := by omega
      have hlen : span.cells.length = (src.take span.length).length := by
        rw [Span.length_cells, List.length_take]
        omega
      have hjoin : src.take span.length ++ (src.drop span.length).take (n - span.length) =
          src.take n := by
        rw [← List.take_add]
        congr 1
        omega
      rw [hmin, ← Span.cells, RingBuffer.fill_fill _ _ hlen, hjoin, spanCells_cons]
      congr 1
      omega

theorem flushQueue_turn (q : RingBuffer) (p : PendingPacket) {n : Nat}
    (hn : n ≤ p.data.length - p.offset) (hroom : n ≤ q.canWriteSize) :
    ∃ q', (copyToSpans q q.getWriteableBuffers.2 (p.data.drop p.offset) n).2 = n ∧
      ((copyToSpans q q.getWriteableBuffers.2 (p.data.drop p.offset) n).1.commitWrite n).getD
        (copyToSpans q q.getWriteableBuffers.2 (p.data.drop p.offset) n).1 = q' ∧
      Grown q q' ((p.data.drop p.offset).take n) := by
  have hcells := RingBuffer.spanCells_getWriteableBuffers (q := q)
  have hsrc : n ≤ (p.data.drop p.offset).length := by rwa [List.length_drop]
  rw [copyToSpans_spec q q.getWriteableBuffers.2 _ hsrc
    (by rw [hcells, length_window]; exact hroom)]
  have hlen : ((p.data.drop p.offset).take n).length = n := by
    rw [List.length_take, Nat.min_eq_left hsrc]
  obtain ⟨q', hq'⟩ := RingBuffer.exists_commitWrite
    (q := q.fill (spanCells q.getWriteableBuffers.2) ((p.data.drop p.offset).take n)) (n := n)
    (by simpa [RingBuffer.canWriteSize] using hroom)
  obtain ⟨-, hbuffer, htail, hsize⟩ := RingBuffer.commitWrite_eq_some.mp hq'
  refine ⟨q', rfl, by rw [hq', Option.getD_some], ?_, htail, ?_⟩
  · simp only [RingBuffer.capacity, hbuffer]
    exact RingBuffer.fill_capacity _ _
  · refine RingBuffer.content_commitWrite_fill (hlen.symm ▸ hroom) ?_ (by rw [hlen]; exact hq')
    rw [hcells, hlen, take_window _ _ hroom]

theorem flushQueue_spec (q : RingBuffer) {total : Nat} {queue : List PendingPacket}
    (hunfinished : Unfinished queue) (htotal : total = pendingBytes queue) :
    ∃ more, Grown q (flushQueue q total queue).1 more ∧
      more ++ remainders (flushQueue q total queue).2.2 = remainders queue ∧
      Unfinished (flushQueue q total queue).2.2 ∧
      (flushQueue q total queue).2.1 = pendingBytes (flushQueue q total queue).2.2 := by
  induction queue generalizing q total with
  | nil => exact ⟨[], .refl q, rfl, by simp [flushQueue, Unfinished], by simpa [flushQueue]⟩
  | cons p rest ih =>
    have hp : p.offset < p.data.length := hunfinished p List.mem_cons_self
    have hrest : Unfinished rest := fun u hu => hunfinished u (List.mem_cons_of_mem _ hu)
    rw [flushQueue, RingBuffer.getWriteableBuffers_fst]
    by_cases hfull : q.canWriteSize = 0
    · rw [if_pos hfull]
      exact ⟨[], .refl q, rfl, hunfinished, htotal⟩
    rw [if_neg hfull]
    obtain ⟨q', hcopied, hcommit, hgrown⟩ := flushQueue_turn q p
      (Nat.min_le_left (p.data.length - p.offset) q.canWriteSize) (Nat.min_le_right _ _)
    simp only [hcopied, hcommit]
    split
    · -- the packet is used up
      rename_i hdone
      have hwhole : (p.data.drop p.offset).take (min (p.data.length - p.offset) q.canWriteSize) =
          p.data.drop p.offset := List.take_of_length_le (by rw [List.length_drop]; omega)
      have hleft : total - p.data.length = pendingBytes rest := by
        rw [htotal, pendingBytes, tally_cons, Nat.add_sub_cancel_left]
        rfl
      obtain ⟨more, hmore, hsplit, hunfinished', htotal'⟩ := ih q' hrest hleft
      refine ⟨p.data.drop p.offset ++ more, (hwhole ▸ hgrown).trans hmore, ?_, hunfinished',
        htotal'⟩
      rw [List.append_assoc, hsplit, remainders_cons]
    · -- the ring is full
      rename_i hmore
      refine ⟨_, hgrown, ?_, ?_, ?_⟩
      · rw [remainders_cons, remainders_cons, ← List.append_assoc, ← List.drop_drop,
          List.take_append_drop]
      · intro u hu
        rcases List.mem_cons.mp hu with rfl | hu
        · exact Nat.lt_of_not_le hmore
        · exact hrest u hu
      · rw [htotal]
        rfl

structure Covers (s : Shared) (buf : RioBuf) : Prop where
  offset : buf.offset = s.sendSlice.offset + s.sendBuffer.tail
  inside : s.sendBuffer.tail + buf.length ≤ s.sendBuffer.capacity
  leading : buf.length ≤ s.sendBuffer.size

structure Posted (s : Shared) (send : RioSend) : Prop extends Covers s send.buf where
  posted : send.posted = s.sendBuffer.content.take send.buf.length

/-- The invariant of the send side, with the number of frames that own the flag
and the number of transferred bytes that are still in the ring. -/
structure Streaming (s : Shared) (owners drained : Nat) : Prop where
  capacity : s.sendBuffer.capacity = s.sendSlice.length
  stream : s.consumed ++ s.sendBuffer.content ++ remainders s.pendingSendQueue =
    encodings s.accepted
  unfinished : Unfinished s.pendingSendQueue
  total : s.pendingTotalBytes = pendingBytes s.pendingSendQueue
  single : s.rioSends.length + owners ≤ s.sendInProgress.toNat
  bound : drained ≤ s.sendBuffer.size
  transferred : s.transferred = s.consumed ++ s.sendBuffer.content.take drained
  posted : ∀ send ∈ s.rioSends, Posted s send

section

variable {s : Shared} {owners drained : Nat}

theorem Covers.cells {buf : RioBuf} (h : Covers s buf) :
    List.range' (buf.offset - s.sendSlice.offset) buf.length =
      (window s.sendBuffer.capacity s.sendBuffer.tail s.sendBuffer.size).take buf.length := by
  rw [h.offset, Nat.add_sub_cancel_left, take_window _ _ h.leading,
    window_eq_range'_of_fits h.inside]

theorem Covers.read {buf : RioBuf} (h : Covers s buf) :
    s.read buf = s.sendBuffer.content.take buf.length := by
  rw [Shared.read, h.cells, RingBuffer.read, gather_take]
  rfl

theorem Posted.grown {send : RioSend} {s' : Shared} {more : List Byte} (h : Posted s send)
    (hslice : s'.sendSlice = s.sendSlice) (hgrown : Grown s.sendBuffer s'.sendBuffer more) :
    Posted s' send where
  offset := by rw [hslice, hgrown.tail, h.offset]
  inside := by
    rw [hgrown.tail, hgrown.capacity]
    exact h.inside
  leading := by
    rw [hgrown.size]
    exact h.leading.trans (Nat.le_add_right _ _)
  posted := by
    rw [hgrown.content, List.take_append_of_le_length, h.posted]
    rw [RingBuffer.length_content]
    exact h.leading

/-- The range that is posted covers the first block; its 32-bit numbers lose
nothing, as the slice lies inside the registered buffer. -/
theorem covers_first (hcap : s.sendBuffer.capacity = s.sendSlice.length)
    (hsome : s.sendBuffer.size ≠ 0) :
    Covers s ⟨(s.sendSlice.offset + s.sendBuffer.tail % 2 ^ 32) % 2 ^ 32,
      min s.sendBuffer.size (s.sendBuffer.capacity - s.sendBuffer.tail) % 2 ^ 32⟩ := by
  have hfits := s.sendSlice.fits
  have hsize := s.sendBuffer.size_le_capacity
  have htail : s.sendBuffer.tail < s.sendBuffer.capacity := by
    rcases s.sendBuffer.tail_lt with htail | htail
    · exact htail
    · omega
  refine ⟨?_, ?_, ?_⟩
  · change (s.sendSlice.offset + s.sendBuffer.tail % 2 ^ 32) % 2 ^ 32 = _
    rw [Nat.mod_eq_of_lt (show s.sendBuffer.tail < 2 ^ 32 by omega), Nat.mod_eq_of_lt (by omega)]
  · change s.sendBuffer.tail + min _ _ % 2 ^ 32 ≤ _
    rw [Nat.mod_eq_of_lt (by omega)]
    omega
  · change min _ _ % 2 ^ 32 ≤ _
    rw [Nat.mod_eq_of_lt (by omega)]
    omega

/-- A message that is accepted goes to the end of the stream: into the ring only
when nothing is queued before it. -/
theorem Streaming.enqueue (h : Streaming s owners drained) (m : Message) :
    Streaming (enqueue m s) owners drained := by
  have hdata : packetData m = m.encode := rfl
  have hqueued : Streaming { s with
      pendingSendQueue := s.pendingSendQueue ++ [⟨packetData m, 0⟩]
      pendingTotalBytes := s.pendingTotalBytes + m.totalSize
      accepted := s.accepted ++ [m] } owners drained := by
    refine ⟨h.capacity, ?_, ?_, ?_, h.single, h.bound, h.transferred, ?_⟩
    · simp only [remainders_append, ← List.append_assoc, h.stream, encodings_append,
        encodings_singleton, remainders_cons, List.drop_zero, remainders_nil, List.append_nil,
        hdata]
    · intro p hp
      rcases List.mem_append.mp hp with hp | hp
      · exact h.unfinished p hp
      · obtain rfl := List.mem_singleton.mp hp
        simpa [hdata] using m.totalSize_pos
    · simp only [pendingBytes, tally_append, tally_cons, tally_nil, hdata, Message.length_encode,
        Nat.add_zero, h.total]
    · exact fun send hsend => (h.posted send hsend).grown rfl (.refl _)
  unfold Rio.enqueue
  dsimp only
  split
  · rename_i hdirect
    simp only [Bool.and_eq_true, List.isEmpty_iff] at hdirect
    split
    · rename_i q hwrite
      have hgrown := grown_of_write hwrite
      refine ⟨hgrown.capacity.trans h.capacity, ?_, h.unfinished, h.total, h.single, ?_, ?_, ?_⟩
      · have hstream := h.stream
        simp only [hdirect.1, remainders_nil, List.append_nil] at hstream ⊢
        rw [hgrown.content, ← List.append_assoc, hstream, encodings_append, encodings_singleton,
          hdata]
      · rw [hgrown.size]
        exact h.bound.trans (Nat.le_add_right _ _)
      · simp only [h.transferred, hgrown.content]
        rw [List.take_append_of_le_length (by rw [RingBuffer.length_content]; exact h.bound)]
      · exact fun send hsend => (h.posted send hsend).grown rfl hgrown
    · exact hqueued
  · exact hqueued

theorem Streaming.tryPost (h : Streaming s owners drained) (accepted : Bool) :
    Streaming (tryPostSendFromQueue accepted s) owners drained := by
  unfold tryPostSendFromQueue
  split
  · exact h
  · rename_i hfree
    have hsingle := h.single
    rw [Bool.eq_false_iff.mpr hfree, Bool.toNat_false] at hsingle
    have hnone : s.rioSends = [] := List.length_eq_zero_iff.mp (by omega)
    dsimp only
    split
    · exact h
    · rename_i hsome
      rw [RingBuffer.getReadBuffers_fst] at hsome
      split
      · rw [RingBuffer.headD_getReadBuffers hsome]
        refine ⟨h.capacity, h.stream, h.unfinished, h.total, ?_, h.bound, h.transferred, ?_⟩
        · simp only [hnone, List.nil_append, List.length_singleton, Bool.toNat_true]
          omega
        · intro send hsend
          rw [hnone, List.nil_append] at hsend
          obtain rfl := List.mem_singleton.mp hsend
          have hcovers := covers_first h.capacity hsome
          exact ⟨⟨hcovers.offset, hcovers.inside, hcovers.leading⟩, hcovers.read⟩
      · exact h

theorem Streaming.flush (h : Streaming s owners drained) (accepted : Bool) :
    Streaming (flushPendingSendQueue accepted s) owners drained := by
  obtain ⟨more, hgrown, hsplit, hunfinished, htotal⟩ :=
    flushQueue_spec s.sendBuffer h.unfinished h.total
  unfold flushPendingSendQueue
  apply Streaming.tryPost
  refine ⟨hgrown.capacity.trans h.capacity, ?_, hunfinished, htotal, h.single, ?_, ?_, ?_⟩
  · simp only [hgrown.content, ← List.append_assoc]
    rw [List.append_assoc _ more, hsplit]
    exact h.stream
  · simp only [hgrown.size]
    exact h.bound.trans (Nat.le_add_right _ _)
  · simp only [h.transferred, hgrown.content]
    rw [List.take_append_of_le_length (by rw [RingBuffer.length_content]; exact h.bound)]
  · exact fun send hsend => (h.posted send hsend).grown rfl hgrown

/-- A completion takes its bytes off the ring; nothing else is under way. -/
theorem Streaming.consume {n : Nat} (h : Streaming s (owners + 1) n) :
    Streaming (consume n s) owners 0 := by
  have hsingle := h.single
  have hflag : s.sendInProgress.toNat ≤ 1 := Bool.toNat_le _
  have hnone : s.rioSends = [] := List.length_eq_zero_iff.mp (by omega)
  obtain ⟨q, hq⟩ : ∃ q, s.sendBuffer.consume n = some q := by
    apply Option.ne_none_iff_exists'.mp
    intro hnone
    exact absurd (RingBuffer.consume_eq_none.mp hnone) (Nat.not_lt_of_le h.bound)
  have hcontent := RingBuffer.content_consume hq
  have hbuffer := (RingBuffer.consume_eq_some hq).2.1
  unfold Rio.consume
  rw [hq, Option.getD_some]
  refine ⟨?_, ?_, h.unfinished, h.total, ?_, Nat.zero_le _, ?_, ?_⟩
  · simp only [RingBuffer.capacity, hbuffer]
    exact h.capacity
  · simp only [hcontent]
    rw [List.append_assoc s.consumed, List.take_append_drop]
    exact h.stream
  · simp only [hnone, List.length_nil, Bool.toNat_false]
    omega
  · simp [h.transferred]
  · simp [hnone]

theorem Streaming.complete (h : Streaming s owners drained) (hdrained : owners = 0 → drained = 0)
    {index : Nat} {success : Bool} {n : Nat} {send : RioSend}
    (hsend : s.rioSends[index]? = some send) (hn : n ≤ send.buf.length) :
    Streaming { s with
      rioSends := s.rioSends.eraseIdx index
      transferred := s.transferred ++ if success then (s.read send.buf).take n else [] }
      (owners + 1) (drained + if success then n else 0) := by
  have hmem := List.mem_of_getElem? hsend
  obtain ⟨hlt, -⟩ := List.getElem?_eq_some_iff.mp hsend
  have hposted := h.posted send hmem
  have hsingle := h.single
  have hflag : s.sendInProgress.toNat ≤ 1 := Bool.toNat_le _
  obtain rfl : drained = 0 := hdrained (by omega)
  have hbound := hn.trans hposted.leading
  refine ⟨h.capacity, h.stream, h.unfinished, h.total, ?_, ?_, ?_, ?_⟩
  · simp only [List.length_eraseIdx_of_lt hlt]
    omega
  · rw [Nat.zero_add]
    split
    · exact hbound
    · exact Nat.zero_le _
  · simp only [h.transferred, List.take_zero, List.append_nil, Nat.zero_add]
    split
    · rw [hposted.read, List.take_take, Nat.min_eq_left hn]
    · rfl
  · exact fun u hu => (h.posted u (List.mem_of_mem_eraseIdx hu)).grown rfl (.refl _)

end

/-- A frame that owns `m_bSendInProgress`: a completion that has not removed its
bytes. -/
def Frame.owner : Frame → Nat
  | sendCompletion _ _ | consume _ => 1
  | _ => 0

def Frame.draining : Frame → Nat
  | sendCompletion true bytesTransferred | consume bytesTransferred => bytesTransferred
  | _ => 0

def World.weigh (w : World) (weight : Frame → Nat) : Nat :=
  tally (fun t => t.elim 0 weight) w.threads

theorem World.weigh_exec (weight : Frame → Nat) {w : World} {tid : Nat} {f : Frame}
    (hthread : w.threads[tid]? = some (some f)) (s' : Shared) (t' : Option Frame) :
    World.weigh ⟨s', w.threads.set tid t'⟩ weight + weight f =
      World.weigh w weight + t'.elim 0 weight :=
  tally_set (fun t => t.elim 0 weight) t' hthread

theorem draining_eq_zero {w : World} (h : World.weigh w Frame.owner = 0) :
    World.weigh w Frame.draining = 0 := by
  apply tally_eq_zero.mpr
  intro t ht
  have howner := tally_eq_zero.mp h t ht
  cases t with
  | none => rfl
  | some f =>
    cases f with
    | sendCompletion success n => cases howner
    | consume n => cases howner
    | _ => rfl

theorem Streaming.disown {s : Shared} {owners owners' drained : Nat}
    (h : Streaming s owners drained) (hle : owners' ≤ owners) : Streaming s owners' drained where
  capacity := h.capacity
  stream := h.stream
  unfinished := h.unfinished
  total := h.total
  single := (Nat.add_le_add_left hle _).trans h.single
  bound := h.bound
  transferred := h.transferred
  posted := h.posted

theorem Streaming.disconnected {s : Shared} {owners drained : Nat}
    (h : Streaming s owners drained) (isDisconnected : Bool) (disconnections : Nat) :
    Streaming { s with isDisconnected := isDisconnected, disconnections := disconnections }
      owners drained where
  capacity := h.capacity
  stream := h.stream
  unfinished := h.unfinished
  total := h.total
  single := h.single
  bound := h.bound
  transferred := h.transferred
  posted := fun send hsend => (h.posted send hsend).grown rfl (.refl _)

theorem Streaming.exec {s : Shared} {owners drained owners' drained' : Nat} (accepted : Bool)
    (f : Frame) (h : Streaming s owners drained)
    (howner : owners' + f.owner = owners + (f.exec accepted s).2.elim 0 Frame.owner)
    (hdraining : drained' + f.draining = drained + (f.exec accepted s).2.elim 0 Frame.draining)
    (hrest : owners' = 0 → drained' = 0) : Streaming (f.exec accepted s).1 owners' drained' := by
  cases f with
  | checkDisconnected m =>
    obtain ⟨rfl, rfl⟩ : owners' = owners ∧ drained' = drained := by
      cases hdisc : s.isDisconnected <;>
        simp_all [Frame.exec, Frame.owner, Frame.draining]
    exact h
  | checkPending m =>
    obtain ⟨rfl, rfl⟩ : owners' = owners ∧ drained' = drained := by
      by_cases hmany : s.pendingTotalBytes > maxPendingBytes <;>
        simp_all [Frame.exec, Frame.owner, Frame.draining]
    exact h
  | enqueue m =>
    obtain ⟨rfl, rfl⟩ : owners' = owners ∧ drained' = drained := ⟨howner, hdraining⟩
    exact h.enqueue m
  | flushPendingSendQueue =>
    obtain ⟨rfl, rfl⟩ : owners' = owners ∧ drained' = drained := ⟨howner, hdraining⟩
    exact h.flush accepted
  | sendCompletion success n =>
    cases success with
    | true =>
      obtain rfl := Nat.add_right_cancel howner
      obtain rfl := Nat.add_right_cancel hdraining
      exact h
    | false =>
      obtain rfl : drained' = drained := hdraining
      exact h.disown (Nat.le.intro howner)
  | consume n =>
    -- this completion is the one owner, so the bytes to remove are its own
    have hsingle := h.single
    have hflag : s.sendInProgress.toNat ≤ 1 := Bool.toNat_le _
    obtain rfl : owners' + 1 = owners := howner
    obtain rfl : drained' = 0 := hrest (by omega)
    obtain rfl : n = drained := (Nat.zero_add n).symm.trans hdraining
    exact h.consume
  | disconnect =>
    obtain ⟨rfl, rfl⟩ : owners' = owners ∧ drained' = drained := ⟨howner, hdraining⟩
    exact h.disconnected true s.disconnections
  | onDisconnected =>
    obtain ⟨rfl, rfl⟩ : owners' = owners ∧ drained' = drained := ⟨howner, hdraining⟩
    exact h.disconnected s.isDisconnected (s.disconnections + 1)

variable {ok : World → Move Bool Event → Prop} {w : World}

theorem streaming (hw : system.Reach ok w) :
    Streaming w.shared (World.weigh w Frame.owner) (World.weigh w Frame.draining) := by
  refine Machine.invariant (m := machine) (I := fun w =>
    Streaming w.shared (World.weigh w Frame.owner) (World.weigh w Frame.draining)) ?_ ?_ ?_ hw
  · rintro s ⟨sendSlice, memory, hmemory, rfl⟩
    exact ⟨hmemory, rfl, by simp [Shared.initial, Unfinished], rfl, Nat.zero_le _, Nat.zero_le _,
      rfl, by simp [Shared.initial]⟩
  · intro w tid accepted t s' t' _ ih _ hthread hrun
    obtain ⟨f, rfl, hexec⟩ := Option.map_eq_some_iff.mp hrun
    obtain rfl : (f.exec accepted w.shared).1 = s' := congrArg Prod.fst hexec
    obtain rfl : (f.exec accepted w.shared).2 = t' := congrArg Prod.snd hexec
    exact ih.exec accepted f (World.weigh_exec Frame.owner hthread _ _)
      (World.weigh_exec Frame.draining hthread _ _) draining_eq_zero
  · intro w event s' t' _ ih _ hspawn
    have hweigh : ∀ weight : Frame → Nat,
        World.weigh ⟨s', w.threads ++ [t']⟩ weight = World.weigh w weight + t'.elim 0 weight := by
      simp [World.weigh]
    rw [hweigh, hweigh]
    cases event with
    | sendMessage m =>
      cases hspawn
      exact ih
    | receiveFailed =>
      cases hspawn
      exact ih
    | sendCompletion index success n =>
      simp only [machine, Shared.arrive] at hspawn
      split at hspawn
      · cases hspawn
      · rename_i hsend
        split at hspawn
        · rename_i hn
          cases hspawn
          cases success with
          | true => exact ih.complete draining_eq_zero hsend hn
          | false => exact ih.complete draining_eq_zero hsend hn
        · cases hspawn

/-- The send side of a session as one stream of bytes. -/
structure Refines (s : Shared) : Prop where
  stream : s.consumed ++ s.sendBuffer.content ++ remainders s.pendingSendQueue =
    encodings s.accepted
  consumed : s.consumed <+: s.transferred
  transferred : s.transferred <+: s.consumed ++ s.sendBuffer.content
  pending : s.pendingTotalBytes = pendingBytes s.pendingSendQueue
  single : s.rioSends.length ≤ 1
  leading : ∀ send ∈ s.rioSends, send.buf.length ≤ s.sendBuffer.size ∧
    List.range' (send.buf.offset - s.sendSlice.offset) send.buf.length =
      (window s.sendBuffer.capacity s.sendBuffer.tail s.sendBuffer.size).take send.buf.length
  inside : ∀ send ∈ s.rioSends, s.sendSlice.offset ≤ send.buf.offset ∧
    send.buf.offset + send.buf.length ≤ s.sendSlice.offset + s.sendSlice.length
  unmodified : ∀ send ∈ s.rioSends, s.read send.buf = send.posted

/-- In every reachable state the session refines its stream of accepted messages. -/
theorem send_stream_refines {w : World} (hw : system.Reach free w) : Refines w.shared := by
  have h := streaming hw
  have hflag : w.shared.sendInProgress.toNat ≤ 1 := Bool.toNat_le _
  have hsingle := h.single
  refine ⟨h.stream, ?_, ?_, h.total, by omega, ?_, ?_, ?_⟩
  · rw [h.transferred]
    exact List.prefix_append _ _
  · rw [h.transferred, List.prefix_append_right_inj]
    exact List.take_prefix _ _
  · exact fun send hsend => ⟨(h.posted send hsend).leading, (h.posted send hsend).cells⟩
  · intro send hsend
    have hoffset := (h.posted send hsend).offset
    have hinside := (h.posted send hsend).inside
    have hcapacity := h.capacity
    omega
  · intro send hsend
    rw [(h.posted send hsend).read, (h.posted send hsend).posted]

def World.fresh : World :=
  ⟨Shared.initial ⟨4096, 8, by decide⟩ (List.replicate 8 0), []⟩

theorem World.reach_fresh : system.Reach ok World.fresh :=
  .init ⟨⟨_, _, rfl, rfl⟩, rfl⟩

/-- A message of 6 bytes is posted; a second one of 5 bytes only fits in part. -/
def overflowingRun : List (Move Bool Event) :=
  .spawn (.sendMessage ⟨1, [7, 8]⟩) :: List.replicate 4 (.run 0 true) ++
    .spawn (.sendMessage ⟨2, [9]⟩) :: List.replicate 4 (.run 1 true)

theorem send_stream_refines_of_overflow :
    ∃ w : World, system.runUnder free World.fresh overflowingRun = some w ∧
      w.shared.pendingSendQueue = [⟨[0, 5, 0, 2, 9], 2⟩] ∧ Refines w.shared := by
  obtain ⟨w, hrun, hqueue⟩ := exists_of_runUnder system free World.fresh overflowingRun
    (fun w => decide (w.shared.pendingSendQueue = [⟨[0, 5, 0, 2, 9], 2⟩])) (by decide)
  exact ⟨w, hrun, of_decide_eq_true hqueue,
    send_stream_refines (World.reach_fresh.of_runUnder hrun)⟩

end FastPort.Sessions.Rio
