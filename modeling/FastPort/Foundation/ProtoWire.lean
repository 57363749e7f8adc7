import Mathlib.Algebra.Order.BigOperators.Group.List

/-! The wire format of protocol buffers, as far as unsigned integers and embedded
messages need it: base-128 numbers, tags, fields without presence. -/
namespace FastPort.Foundation.ProtoWire

/-- Seven bits to a byte, the lowest first; the high bit says that more follow. -/
def varint (n : Nat) : List UInt8 :=
  if n < 128 then [UInt8.ofNat n] else UInt8.ofNat (n % 128 + 128) :: varint (n / 128)
termination_by n
decreasing_by omega

def groups (n : Nat) : Nat :=
  if n < 128 then 1 else groups (n / 128) + 1
termination_by n
decreasing_by omega

inductive WireType where
  | varint
  | lengthDelimited
deriving DecidableEq

def WireType.toNat : WireType → Nat
  | .varint => 0
  | .lengthDelimited => 2

def tag (number : Nat) (wireType : WireType) : List UInt8 :=
  varint (number * 8 + wireType.toNat)

def varintField (number value : Nat) : List UInt8 :=
  if value = 0 then [] else tag number .varint ++ varint value

def messageField (number : Nat) (body : List UInt8) : List UInt8 :=
  tag number .lengthDelimited ++ varint body.length ++ body

def fieldSize (value : Nat) : Nat :=
  if value = 0 then 0 else 1 + groups value

theorem groups_of_lt {n : Nat} (h : n < 128) : groups n = 1 := by
  rw [groups, if_pos h]

theorem groups_le {n k : Nat} (h : n < 128 ^ (k + 1)) : groups n ≤ k + 1 := by
  induction k generalizing n with
  | zero => rw [groups_of_lt (by simpa using h)]
  | succ k ih =>
    rw [groups]
    split
    · exact Nat.succ_pos _
    · have hdiv : n / 128 < 128 ^ (k + 1) := Nat.div_lt_of_lt_mul (by rwa [Nat.pow_succ'] at h)
      exact Nat.succ_le_succ (ih hdiv)

@[simp] theorem length_varint (n : Nat) : (varint n).length = groups n := by
  induction n using Nat.strong_induction_on with
  | h n ih =>
    rw [varint, groups]
    split
    · rfl
    · rw [List.length_cons, ih _ (by omega)]

theorem length_tag {number : Nat} (h : number < 16) (wireType : WireType) :
    (tag number wireType).length = 1 := by
  rw [tag, length_varint, groups_of_lt]
  cases wireType <;> simp only [WireType.toNat] <;> omega

theorem length_varintField {number : Nat} (h : number < 16) (value : Nat) :
    (varintField number value).length = fieldSize value := by
  unfold varintField fieldSize
  split
  · rfl
  · rw [List.length_append, length_tag h, length_varint]

theorem length_messageField {number : Nat} (h : number < 16) {body : List UInt8}
    (hbody : body.length < 128) : (messageField number body).length = 2 + body.length := by
  rw [messageField, List.length_append, List.length_append, length_tag h, length_varint,
    groups_of_lt hbody]

theorem fieldSize_le {value k : Nat} (h : value < 128 ^ (k + 1)) : fieldSize value ≤ k + 2 := by
  have hgroups := groups_le h
  unfold fieldSize
  split <;> omega

theorem fieldSize_le_of_uint64 (value : UInt64) : fieldSize value.toNat ≤ 11 :=
  fieldSize_le (k := 9) (value.toNat_lt.trans (by decide))

theorem fieldSize_le_of_uint32 (value : UInt32) : fieldSize value.toNat ≤ 6 :=
  fieldSize_le (k := 4) (value.toNat_lt.trans (by decide))

def fixed64Field (number : Nat) (bits : UInt64) : List UInt8 :=
  if bits = 0 then []
  else varint (number * 8 + 1) ++ (List.range 8).map fun i => UInt8.ofNat (bits.toNat / 256 ^ i)

theorem length_fixed64Field_le {number : Nat} (h : number < 15) (bits : UInt64) :
    (fixed64Field number bits).length ≤ 9 := by
  unfold fixed64Field
  split
  · exact Nat.zero_le _
  · rw [List.length_append, length_varint, groups_of_lt (by omega), List.length_map,
      List.length_range]

end FastPort.Foundation.ProtoWire
