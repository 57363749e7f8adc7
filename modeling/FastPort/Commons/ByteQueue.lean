import FastPort.Commons.RingWords
import FastPort.Foundation.Object

/-! What a ring buffer is for: a queue of at most `capacity` bytes. Both classes
answer every sequence of operations as such a queue does, first with natural
numbers as indices and then with the words they really hold. -/
namespace FastPort.Commons

open FastPort.Foundation FastPort.Foundation.Circular

inductive Operation where
  | write (data : ByteSpan)
  | pop (n : UInt64)
  | peek (n : UInt64)
  | consume (n : UInt64)
  /-- `AllocateWrite`, whose blocks the caller fills. -/
  | allocateWrite (data : ByteSpan)
  /-- `GetWriteableBuffers`, whose blocks the caller fills from the front, and
  `CommitWrite` of no more than it filled. -/
  | commitWrite (filled : List Byte) (n : UInt64) (filled_le : n.toNat ≤ filled.length)
  | getReadBuffers
  | clear

inductive Reply where
  | done (ok : Bool)
  | bytes (out : Option (List Byte))
  | committed (writeable : Nat) (ok : Bool)
  | buffers (readable : Nat) (shown : List Byte)
deriving DecidableEq

def Reply.ok : Reply → Bool
  | done ok => ok
  | bytes out => out.isSome
  | committed _ ok => ok
  | buffers _ _ => true

def settle {State : Type} (reply : Bool → Reply) (s : State) : Option State → Reply × State
  | some s' => (reply true, s')
  | none => (reply false, s)

def settleBytes {State : Type} (s : State) : Option (List Byte × State) → Reply × State
  | some (out, s') => (.bytes (some out), s')
  | none => (.bytes none, s)

def settleFilled {State : Type} (s : State) (fill : List Span → State → State) :
    Option (List Span × State) → Reply × State
  | some (spans, s') => (.done true, fill spans s')
  | none => (.done false, s)

namespace RingWords

def content (w : RingWords) : List Byte :=
  gather w.buffer (window w.capacity.toNat w.tail.toNat w.size.toNat)

def apply (w : RingWords) : Operation → Reply × RingWords
  | .write data => settle .done w (w.write data)
  | .pop n => settleBytes w (w.pop n)
  | .peek n => (.bytes (w.peek n), w)
  | .consume n => settle .done w (w.consume n)
  | .allocateWrite data =>
      settleFilled w (fun spans w' => w'.fill (spanCells spans) data.bytes)
        (w.allocateWrite data.size)
  | .commitWrite filled n _ =>
      let w' := w.fill (spanCells w.getWriteableBuffers.2) filled
      settle (.committed w.getWriteableBuffers.1.toNat) w' (w'.commitWrite n)
  | .getReadBuffers =>
      (.buffers w.getReadBuffers.1.toNat (gather w.buffer (spanCells w.getReadBuffers.2)), w)
  | .clear => (.done true, w.clear)

def object : Object RingWords Operation Reply := ⟨apply⟩

end RingWords

namespace RingBuffer

def apply (q : RingBuffer) : Operation → Reply × RingBuffer
  | .write data => settle .done q (q.write data.bytes)
  | .pop n => settleBytes q (q.pop n.toNat)
  | .peek n => (.bytes (q.peek n.toNat), q)
  | .consume n => settle .done q (q.consume n.toNat)
  | .allocateWrite data =>
      settleFilled q (fun spans q' => q'.fill (spanCells spans) data.bytes)
        (q.allocateWrite data.bytes.length)
  | .commitWrite filled n _ =>
      let q' := q.fill (spanCells q.getWriteableBuffers.2) filled
      settle (.committed q.getWriteableBuffers.1) q' (q'.commitWrite n.toNat)
  | .getReadBuffers =>
      (.buffers q.getReadBuffers.1 (q.read (spanCells q.getReadBuffers.2)), q)
  | .clear => (.done true, q.clear)

def object : Object RingBuffer Operation Reply := ⟨apply⟩

end RingBuffer

/-- A list of at most `capacity` bytes, oldest first. -/
structure ByteQueue (capacity : Nat) where
  content : List Byte
  length_le : content.length ≤ capacity

namespace ByteQueue

variable {capacity : Nat}

def empty : ByteQueue capacity := ⟨[], Nat.zero_le _⟩

def add (xs : ByteQueue capacity) (data : List Byte) : Option (ByteQueue capacity) :=
  if h : xs.content.length + data.length ≤ capacity then
    some ⟨xs.content ++ data, by simpa using h⟩
  else none

def remove (xs : ByteQueue capacity) (n : Nat) : Option (ByteQueue capacity) :=
  if n ≤ xs.content.length then
    some ⟨xs.content.drop n, by have := xs.length_le; simp; omega⟩
  else none

def oldest (xs : ByteQueue capacity) (n : Nat) : Option (List Byte) :=
  if n ≤ xs.content.length then some (xs.content.take n) else none

def apply (xs : ByteQueue capacity) : Operation → Reply × ByteQueue capacity
  | .write data | .allocateWrite data => settle .done xs (xs.add data.bytes)
  | .pop n =>
      settleBytes xs ((xs.remove n.toNat).map fun xs' => (xs.content.take n.toNat, xs'))
  | .peek n => (.bytes (xs.oldest n.toNat), xs)
  | .consume n => settle .done xs (xs.remove n.toNat)
  | .commitWrite filled n _ =>
      settle (.committed (capacity - xs.content.length)) xs (xs.add (filled.take n.toNat))
  | .getReadBuffers => (.buffers xs.content.length xs.content, xs)
  | .clear => (.done true, empty)

def object (capacity : Nat) : Object (ByteQueue capacity) Operation Reply := ⟨apply⟩

end ByteQueue

section Settle

variable {S T : Type} {R : S → T → Prop} {s : S} {t : T}

theorem settle_rel (reply : Bool → Reply) (hst : R s t) {low : Option S} {high : Option T}
    (h : Option.Rel R low high) :
    (settle reply s low).1 = (settle reply t high).1 ∧
      R (settle reply s low).2 (settle reply t high).2 := by
  cases h with
  | none => exact ⟨rfl, hst⟩
  | some h => exact ⟨rfl, h⟩

theorem settleBytes_rel (hst : R s t) {low : Option (List Byte × S)}
    {high : Option (List Byte × T)}
    (h : Option.Rel (fun r r' => r.1 = r'.1 ∧ R r.2 r'.2) low high) :
    (settleBytes s low).1 = (settleBytes t high).1 ∧
      R (settleBytes s low).2 (settleBytes t high).2 := by
  cases h with
  | none => exact ⟨rfl, hst⟩
  | some h => exact ⟨congrArg (fun out => Reply.bytes (some out)) h.1, h.2⟩

theorem settle_fail {reply : Bool → Reply} (hreply : (reply true).ok = true) {low : Option S}
    (hfail : (settle reply s low).1.ok = false) : (settle reply s low).2 = s := by
  cases low with
  | none => rfl
  | some s' => exact absurd (hreply.symm.trans hfail) (by decide)

theorem settleBytes_fail {low : Option (List Byte × S)}
    (hfail : (settleBytes s low).1.ok = false) : (settleBytes s low).2 = s := by
  cases low with
  | none => rfl
  | some r => cases hfail

theorem settleFilled_fail {fill : List Span → S → S} {low : Option (List Span × S)}
    (hfail : (settleFilled s fill low).1.ok = false) : (settleFilled s fill low).2 = s := by
  cases low with
  | none => rfl
  | some r => cases hfail

end Settle

theorem Holds.simulates : Object.Simulates Holds RingWords.object RingBuffer.object := by
  have step : ∀ {w : RingWords} {q : RingBuffer}, Holds w q → ∀ op,
      (w.apply op).1 = (q.apply op).1 ∧ Holds (w.apply op).2 (q.apply op).2 := by
    intro w q h op
    cases op with
    | write data => exact settle_rel .done h (h.write data)
    | pop n => exact settleBytes_rel h (h.pop n)
    | peek n => exact ⟨congrArg Reply.bytes (h.peek n), h⟩
    | consume n => exact settle_rel .done h (h.consume n)
    | allocateWrite data =>
      have halloc := h.allocateWrite data.size
      simp only [RingWords.apply, RingBuffer.apply]
      rw [data.toNat_size] at halloc
      generalize w.allocateWrite data.size = low at halloc
      generalize q.allocateWrite data.bytes.length = high at halloc
      cases halloc with
      | none => exact ⟨rfl, h⟩
      | some halloc =>
        refine ⟨rfl, ?_⟩
        simp only [settleFilled, halloc.1]
        exact halloc.2.fill _ _
    | commitWrite filled n hn =>
      obtain ⟨hwriteable, hspans⟩ := h.getWriteableBuffers
      simp only [RingWords.apply, RingBuffer.apply, hwriteable, hspans]
      exact settle_rel _ (h.fill _ _) ((h.fill _ _).commitWrite n)
    | getReadBuffers =>
      obtain ⟨hreadable, hspans⟩ := h.getReadBuffers
      refine ⟨?_, h⟩
      simp only [RingWords.apply, RingBuffer.apply, hreadable, hspans, h.buffer, RingBuffer.read]
    | clear => exact ⟨rfl, h.clear⟩
  exact ⟨fun h op => (step h op).1, fun h op => (step h op).2⟩

namespace RingBuffer

variable {q : RingBuffer}

theorem gather_fill_front {filled : List Byte} {n : Nat} (hfit : n ≤ q.canWriteSize)
    (hn : n ≤ filled.length) :
    gather (q.fill (window q.capacity (q.tail + q.size) q.canWriteSize) filled).buffer
      (window q.capacity (q.tail + q.size) n) = filled.take n := by
  have hle := q.size_add_canWriteSize
  have hlength : (filled.take n).length = n := List.length_take_of_le hn
  have hsplit : q.fill (window q.capacity (q.tail + q.size) q.canWriteSize) filled =
      (q.fill (window q.capacity (q.tail + q.size) n) (filled.take n)).fill
        (window q.capacity (q.tail + q.size + n) (q.canWriteSize - n)) (filled.drop n) := by
    rw [fill_fill _ _ (by simp [hn]), ← window_add, Nat.add_sub_cancel' hfit,
      List.take_append_drop]
  have hfront := gather_fill_behind (show (filled.take n).length ≤ q.canWriteSize by omega)
  rw [hlength] at hfront
  rw [hsplit, fill_buffer, gather_scatter_disjoint _ _ (disjoint_window (by omega)), hfront]

theorem content_commitWrite_filled {q' : RingBuffer} {filled : List Byte} {n : Nat}
    (hn : n ≤ filled.length)
    (h : (q.fill (spanCells q.getWriteableBuffers.2) filled).commitWrite n = some q') :
    q'.content = q.content ++ filled.take n := by
  have hfit : n ≤ q.canWriteSize := by simpa using (commitWrite_eq_some.mp h).1
  rw [spanCells_getWriteableBuffers] at h
  rw [content_commitWrite h, content_fill_behind (Nat.le_refl _), fill_capacity, fill_tail,
    fill_size, gather_fill_front hfit hn]

end RingBuffer

structure Stores {capacity : Nat} (q : RingBuffer) (xs : ByteQueue capacity) : Prop where
  capacity : q.capacity = capacity
  content : q.content = xs.content

namespace Stores

variable {capacity : Nat} {q : RingBuffer} {xs : ByteQueue capacity}

theorem length_content (h : Stores q xs) : xs.content.length = q.size := by
  rw [← h.content, RingBuffer.length_content]

theorem canWriteSize (h : Stores q xs) : q.canWriteSize = capacity - xs.content.length := by
  rw [h.length_content, ← h.capacity]
  rfl

theorem add (h : Stores q xs) {data : List Byte} {low : Option RingBuffer}
    (hnone : low = none ↔ q.canWriteSize < data.length)
    (hsome : ∀ q', low = some q' → q'.capacity = q.capacity ∧ q'.content = q.content ++ data) :
    Option.Rel Stores low (xs.add data) := by
  have hle := xs.length_le
  have hfree := h.canWriteSize
  unfold ByteQueue.add
  cases low with
  | none =>
    rw [dif_neg (by have := hnone.mp rfl; omega)]
    exact .none
  | some q' =>
    have hfit : ¬ q.canWriteSize < data.length := fun hlt => nomatch hnone.mpr hlt
    obtain ⟨hcap, hcontent⟩ := hsome q' rfl
    rw [dif_pos (by omega)]
    exact .some ⟨hcap.trans h.capacity, hcontent.trans (by rw [h.content])⟩

theorem write (h : Stores q xs) (data : List Byte) :
    Option.Rel Stores (q.write data) (xs.add data) :=
  h.add RingBuffer.write_eq_none fun _ hq' =>
    ⟨(RingBuffer.write_spec hq').2.1, RingBuffer.content_write hq'⟩

theorem consume (h : Stores q xs) (n : Nat) :
    Option.Rel Stores (q.consume n) (xs.remove n) := by
  unfold ByteQueue.remove
  rw [h.length_content]
  cases hq' : q.consume n with
  | none =>
    rw [if_neg (Nat.not_le_of_lt (RingBuffer.consume_eq_none.mp hq'))]
    exact .none
  | some q' =>
    obtain ⟨hn, hbuffer, -⟩ := RingBuffer.consume_eq_some hq'
    rw [if_pos hn]
    refine .some ⟨?_, ?_⟩
    · rw [RingBuffer.capacity, hbuffer]
      exact h.capacity
    · rw [RingBuffer.content_consume hq', h.content]

theorem peek (h : Stores q xs) (n : Nat) : q.peek n = xs.oldest n := by
  unfold ByteQueue.oldest
  rw [RingBuffer.peek_eq, h.length_content, h.content]
  by_cases hn : n ≤ q.size
  · rw [if_neg (Nat.not_lt_of_le hn), if_pos hn]
  · rw [if_pos (Nat.lt_of_not_le hn), if_neg hn]

theorem pop (h : Stores q xs) (n : Nat) :
    Option.Rel (fun r s => r.1 = s.1 ∧ Stores r.2 s.2) (q.pop n)
      ((xs.remove n).map fun xs' => (xs.content.take n, xs')) := by
  have hconsume := h.consume n
  unfold RingBuffer.pop
  rw [RingBuffer.peek_eq, h.content]
  generalize hlow : q.consume n = low at hconsume
  generalize xs.remove n = high at hconsume
  cases hconsume with
  | none =>
    rw [if_pos (RingBuffer.consume_eq_none.mp hlow)]
    exact .none
  | some hstores =>
    rw [if_neg (Nat.not_lt_of_le (RingBuffer.consume_eq_some hlow).1)]
    exact .some ⟨rfl, hstores⟩

theorem fill (h : Stores q xs) (data : List Byte) :
    Stores (q.fill (spanCells q.getWriteableBuffers.2) data) xs where
  capacity := by rw [RingBuffer.fill_capacity, h.capacity]
  content := by
    rw [RingBuffer.spanCells_getWriteableBuffers, RingBuffer.content_fill_behind (Nat.le_refl _),
      h.content]

theorem commitWrite (h : Stores q xs) {filled : List Byte} {n : Nat} (hn : n ≤ filled.length) :
    Option.Rel Stores ((q.fill (spanCells q.getWriteableBuffers.2) filled).commitWrite n)
      (xs.add (filled.take n)) := by
  refine h.add ?_ fun q' hq' => ⟨?_, RingBuffer.content_commitWrite_filled hn hq'⟩
  · rw [List.length_take_of_le hn, RingBuffer.commitWrite_eq_none, RingBuffer.fill_canWriteSize]
  · obtain ⟨-, hbuffer, -⟩ := RingBuffer.commitWrite_eq_some.mp hq'
    rw [RingBuffer.capacity, hbuffer]
    simp [RingBuffer.capacity]

theorem allocateWrite (h : Stores q xs) (data : List Byte) :
    Option.Rel (fun r xs' => Stores (r.2.fill (spanCells r.1) data) xs')
      (q.allocateWrite data.length) (xs.add data) := by
  have hadd : Option.Rel Stores
      ((q.allocateWrite data.length).map fun r => r.2.fill (spanCells r.1) data) (xs.add data) := by
    refine h.add ?_ fun q' hq' => ?_
    · rw [Option.map_eq_none_iff, RingBuffer.allocateWrite_eq_none]
    · obtain ⟨⟨spans, q''⟩, halloc, rfl⟩ := Option.map_eq_some_iff.mp hq'
      obtain ⟨hfit, hspans, hbuffer, htail, hsize⟩ := RingBuffer.allocateWrite_eq_some halloc
      have hcap : q''.capacity = q.capacity := by rw [RingBuffer.capacity, hbuffer]; rfl
      refine ⟨by rw [RingBuffer.fill_capacity, hcap], ?_⟩
      have hkeep := RingBuffer.content_fill_behind hfit data
      have hnew := RingBuffer.gather_fill_behind hfit
      unfold RingBuffer.content at hkeep ⊢
      simp only [RingBuffer.fill_capacity, RingBuffer.fill_tail, RingBuffer.fill_size,
        RingBuffer.fill_buffer] at hkeep hnew ⊢
      rw [hspans, hcap, htail, hsize, hbuffer, window_add, gather_append, hkeep, hnew]
  generalize q.allocateWrite data.length = low at hadd ⊢
  generalize xs.add data = high at hadd ⊢
  cases low <;> cases hadd
  · exact .none
  · rename_i hstores
    exact .some hstores

theorem simulates :
    Object.Simulates Stores RingBuffer.object (ByteQueue.object capacity) := by
  have step : ∀ {q : RingBuffer} {xs : ByteQueue capacity}, Stores q xs → ∀ op,
      (q.apply op).1 = (xs.apply op).1 ∧ Stores (q.apply op).2 (xs.apply op).2 := by
    intro q xs h op
    cases op with
    | write data => exact settle_rel .done h (h.write data.bytes)
    | pop n => exact settleBytes_rel h (h.pop n.toNat)
    | peek n => exact ⟨congrArg Reply.bytes (h.peek n.toNat), h⟩
    | consume n => exact settle_rel .done h (h.consume n.toNat)
    | allocateWrite data =>
      have halloc := h.allocateWrite data.bytes
      simp only [RingBuffer.apply, ByteQueue.apply]
      generalize q.allocateWrite data.bytes.length = low at halloc
      generalize xs.add data.bytes = high at halloc
      cases halloc with
      | none => exact ⟨rfl, h⟩
      | some hstores => exact ⟨rfl, hstores⟩
    | commitWrite filled n hn =>
      simp only [RingBuffer.apply, ByteQueue.apply, RingBuffer.getWriteableBuffers_fst,
        h.canWriteSize]
      exact settle_rel _ (h.fill filled) (h.commitWrite hn)
    | getReadBuffers =>
      refine ⟨?_, h⟩
      simp only [RingBuffer.apply, ByteQueue.apply, RingBuffer.getReadBuffers_fst,
        RingBuffer.spanCells_getReadBuffers, h.length_content]
      exact congrArg (Reply.buffers q.size) h.content
    | clear => exact ⟨rfl, h.capacity, rfl⟩
  exact ⟨fun h op => (step h op).1, fun h op => (step h op).2⟩

end Stores

/-- A queue as one of the two constructors leaves it. -/
inductive Constructed (capacity : UInt64) : RingWords → Prop where
  | circle : Constructed capacity (.circle capacity)
  | external (memory : ByteSpan) : memory.size = capacity → Constructed capacity (.external memory)

structure RingWords.Unchanged (w w' : RingWords) : Prop where
  content : w'.content = w.content
  head : w'.head = w.head
  tail : w'.tail = w.tail
  size : w'.size = w.size

theorem RingWords.Unchanged.of_eq {w w' : RingWords} (h : w' = w) : w.Unchanged w' :=
  h ▸ ⟨rfl, rfl, rfl, rfl⟩

theorem Holds.content {w : RingWords} {q : RingBuffer} (h : Holds w q) : w.content = q.content := by
  simp only [RingWords.content, RingBuffer.content, h.buffer, h.capacity, h.tail, h.size]

/-- The words are the numbers of a ring that stores the list. -/
def Implements {capacity : Nat} (w : RingWords) (xs : ByteQueue capacity) : Prop :=
  ∃ q, Holds w q ∧ Stores q xs

theorem Implements.simulates {capacity : Nat} :
    Object.Simulates Implements RingWords.object (ByteQueue.object capacity) :=
  Holds.simulates.trans Stores.simulates

theorem Constructed.implements {capacity : UInt64} {w : RingWords} (h : Constructed capacity w)
    (hpos : 0 < capacity.toNat) (hlt : capacity.toNat < 2 ^ 63) :
    Implements w (ByteQueue.empty : ByteQueue capacity.toNat) := by
  cases h with
  | circle => exact ⟨_, .circle hpos hlt, List.length_replicate, rfl⟩
  | external memory hsize =>
    subst hsize
    rw [memory.toNat_size] at *
    exact ⟨_, .external hpos hlt, rfl, rfl⟩

theorem Holds.unchanged {w : RingWords} {q : RingBuffer} (h : Holds w q) {op : Operation}
    (hfail : (w.apply op).1.ok = false) : w.Unchanged (w.apply op).2 := by
  cases op with
  | write data => exact .of_eq (settle_fail rfl hfail)
  | pop n => exact .of_eq (settleBytes_fail hfail)
  | peek n | getReadBuffers => exact .of_eq rfl
  | consume n => exact .of_eq (settle_fail rfl hfail)
  | allocateWrite data => exact .of_eq (settleFilled_fail hfail)
  | commitWrite filled n hn =>
    obtain ⟨-, hspans⟩ := h.getWriteableBuffers
    have hfill := h.fill (spanCells w.getWriteableBuffers.2) filled
    have hcontent : (w.fill (spanCells w.getWriteableBuffers.2) filled).content = w.content := by
      rw [hfill.content, h.content, hspans, RingBuffer.spanCells_getWriteableBuffers,
        RingBuffer.content_fill_behind (Nat.le_refl _)]
    have hstay := settle_fail rfl hfail
    simp only [RingWords.apply, hstay]
    exact ⟨hcontent, rfl, rfl, rfl⟩
  | clear => simp [RingWords.apply, Reply.ok] at hfail

/-- A ring buffer of either class answers every sequence of operations as a queue
of at most `capacity` bytes does and holds the same bytes afterwards; a refused
operation changes nothing. -/
theorem ring_eq_byteQueue {capacity : UInt64} (hpos : 0 < capacity.toNat)
    (hlt : capacity.toNat < 2 ^ 63) {start : RingWords} (hstart : Constructed capacity start)
    (ops : List Operation) :
    (RingWords.object.run start ops).1 = ((ByteQueue.object capacity.toNat).run .empty ops).1 ∧
    (RingWords.object.run start ops).2.content =
      ((ByteQueue.object capacity.toNat).run .empty ops).2.content ∧
    (RingWords.object.run start ops).2.head.toNat =
      ((RingWords.object.run start ops).2.tail.toNat +
        (RingWords.object.run start ops).2.size.toNat) % capacity.toNat ∧
    (RingWords.object.run start ops).2.size.toNat ≤ capacity.toNat ∧
    ∀ op, ((RingWords.object.run start ops).2.apply op).1.ok = false →
      (RingWords.object.run start ops).2.Unchanged
        ((RingWords.object.run start ops).2.apply op).2 := by
  obtain ⟨hreplies, q, hholds, hstores⟩ :=
    Implements.simulates.run (hstart.implements hpos hlt) ops
  refine ⟨hreplies, hholds.content.trans hstores.content, ?_, ?_, fun op => hholds.unchanged⟩
  · rw [hholds.head, hholds.tail, hholds.size, ← hstores.capacity]
    exact q.head_eq
  · rw [hholds.size, ← hstores.capacity]
    exact q.size_le_capacity

theorem ring_eq_byteQueue_wrapped :
    (RingWords.object.run (.circle 4)
      [.write ⟨[1, 2, 3], by decide⟩, .pop 2, .write ⟨[4, 5, 6], by decide⟩,
        .write ⟨[7], by decide⟩, .getReadBuffers]).1 =
      [.done true, .bytes (some [1, 2]), .done true, .done false, .buffers 4 [3, 4, 5, 6]] :=
  (ring_eq_byteQueue (by decide) (by decide) .circle _).1.trans (by decide)

end FastPort.Commons
