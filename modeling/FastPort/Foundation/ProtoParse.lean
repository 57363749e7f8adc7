import FastPort.Foundation.ProtoWire

/-! Reading the wire format of protocol buffers. A message is read field by field, and each
field updates a record that starts at its defaults; what is written is read back. Groups are
not read. -/
namespace FastPort.Foundation.ProtoWire

inductive WireValue where
  | varint (bits : UInt64)
  | fixed64 (bits : UInt64)
  | lengthDelimited (bytes : List UInt8)
  | fixed32 (bits : UInt32)
deriving DecidableEq, Repr

def readVarint : Nat → List UInt8 → Option (Nat × List UInt8)
  | 0, _ | _ + 1, [] => none
  | limit + 1, b :: rest =>
      if b.toNat < 128 then some (b.toNat, rest)
      else (readVarint limit rest).map fun r => (b.toNat - 128 + 128 * r.1, r.2)

def readBytes (count : Nat) (bytes : List UInt8) : Option (List UInt8 × List UInt8) :=
  if count ≤ bytes.length then some (bytes.take count, bytes.drop count) else none

def ofBytes : List UInt8 → Nat
  | [] => 0
  | b :: rest => b.toNat + 256 * ofBytes rest

def readValue (wireType : Nat) (bytes : List UInt8) : Option (WireValue × List UInt8) :=
  match wireType with
  | 0 => (readVarint 10 bytes).map fun r => (.varint (UInt64.ofNat r.1), r.2)
  | 1 => (readBytes 8 bytes).map fun r => (.fixed64 (UInt64.ofNat (ofBytes r.1)), r.2)
  | 2 => (readVarint 5 bytes).bind fun length =>
      (readBytes length.1 length.2).map fun r => (.lengthDelimited r.1, r.2)
  | 5 => (readBytes 4 bytes).map fun r => (.fixed32 (UInt32.ofNat (ofBytes r.1)), r.2)
  | _ => none

def readField (bytes : List UInt8) : Option ((Nat × WireValue) × List UInt8) :=
  (readVarint 5 bytes).bind fun tag =>
    if tag.1 / 8 = 0 then none
    else (readValue (tag.1 % 8) tag.2).map fun r => ((tag.1 / 8, r.1), r.2)

section

variable {Record : Type} (update : Record → Nat → WireValue → Option Record)

def mergeFields : Nat → Record → List UInt8 → Option Record
  | _, record, [] => some record
  | 0, _, _ :: _ => none
  | fuel + 1, record, b :: bytes =>
      (readField (b :: bytes)).bind fun r =>
        (update record r.1.1 r.1.2).bind fun record => mergeFields fuel record r.2

def merge (record : Record) (bytes : List UInt8) : Option Record :=
  mergeFields update bytes.length record bytes

end

variable {bytes rest body : List UInt8} {n limit number value : Nat}

theorem readVarint_shorter {r : Nat × List UInt8} (h : readVarint limit bytes = some r) :
    r.2.length < bytes.length := by
  induction limit generalizing bytes r with
  | zero => cases h
  | succ limit ih =>
    cases bytes with
    | nil => cases h
    | cons b bytes =>
      simp only [readVarint] at h
      split at h
      · cases h
        exact Nat.lt_succ_self _
      · obtain ⟨r', hr', rfl⟩ := Option.map_eq_some_iff.mp h
        exact (ih hr').trans (Nat.lt_succ_self _)

theorem readBytes_shorter {count : Nat} {r : List UInt8 × List UInt8}
    (h : readBytes count bytes = some r) : r.2.length ≤ bytes.length := by
  obtain ⟨-, heq⟩ := Option.ite_none_right_eq_some.mp h
  cases heq
  simp

theorem readValue_shorter {wireType : Nat} {r : WireValue × List UInt8}
    (h : readValue wireType bytes = some r) : r.2.length ≤ bytes.length := by
  unfold readValue at h
  split at h
  · obtain ⟨r', hr', rfl⟩ := Option.map_eq_some_iff.mp h
    exact (readVarint_shorter hr').le
  · obtain ⟨r', hr', rfl⟩ := Option.map_eq_some_iff.mp h
    exact readBytes_shorter hr'
  · obtain ⟨length, hlength, hr⟩ := Option.bind_eq_some_iff.mp h
    obtain ⟨r', hr', rfl⟩ := Option.map_eq_some_iff.mp hr
    exact (readBytes_shorter hr').trans (readVarint_shorter hlength).le
  · obtain ⟨r', hr', rfl⟩ := Option.map_eq_some_iff.mp h
    exact readBytes_shorter hr'
  · cases h

theorem readField_shorter {r : (Nat × WireValue) × List UInt8} (h : readField bytes = some r) :
    r.2.length < bytes.length := by
  obtain ⟨tag, htag, hr⟩ := Option.bind_eq_some_iff.mp h
  obtain ⟨-, hvalue⟩ := Option.ite_none_left_eq_some.mp hr
  obtain ⟨r', hr', rfl⟩ := Option.map_eq_some_iff.mp hvalue
  exact (readValue_shorter hr').trans_lt (readVarint_shorter htag)

theorem readVarint_varint (h : groups n ≤ limit) :
    readVarint limit (varint n ++ rest) = some (n, rest) := by
  induction limit generalizing n with
  | zero =>
    rw [groups] at h
    split at h <;> omega
  | succ limit ih =>
    rw [groups] at h
    rw [varint]
    split
    · rename_i hlt
      have hbyte : (UInt8.ofNat n).toNat = n := Nat.mod_eq_of_lt (by omega)
      simp only [List.singleton_append, readVarint, hbyte, if_pos hlt]
    · rename_i hle
      rw [if_neg hle] at h
      have hbyte : (UInt8.ofNat (n % 128 + 128)).toNat = n % 128 + 128 :=
        Nat.mod_eq_of_lt (by omega)
      simp only [List.cons_append, readVarint, hbyte, ih (Nat.le_of_succ_le_succ h),
        Option.map_some]
      rw [if_neg (by omega)]
      congr 2
      omega

theorem readBytes_append : readBytes body.length (body ++ rest) = some (body, rest) := by
  simp [readBytes]

theorem ofBytes_map_range (n count : Nat) :
    ofBytes ((List.range count).map fun i => UInt8.ofNat (n / 256 ^ i)) = n % 256 ^ count := by
  induction count generalizing n with
  | zero => simp [ofBytes, Nat.mod_one]
  | succ count ih =>
    have hshift : (fun i => UInt8.ofNat (n / 256 ^ i)) ∘ Nat.succ =
        fun i => UInt8.ofNat (n / 256 / 256 ^ i) := by
      funext i
      simp [Nat.div_div_eq_div_mul, Nat.pow_succ']
    rw [List.range_succ_eq_map, List.map_cons, List.map_map, hshift, ofBytes, ih, Nat.pow_succ',
      Nat.mod_mul]
    simp

theorem readField_of_readValue {wireType : Nat} {wireValue : WireValue} (hpos : 0 < number)
    (hnumber : number < 2 ^ 29) (hwire : wireType < 8)
    (h : readValue wireType bytes = some (wireValue, rest)) :
    readField (varint (number * 8 + wireType) ++ bytes) = some ((number, wireValue), rest) := by
  have hgroups : groups (number * 8 + wireType) ≤ 5 := groups_le (k := 4) (by omega)
  have hfield : (number * 8 + wireType) / 8 = number := by omega
  have htype : (number * 8 + wireType) % 8 = wireType := by omega
  simp only [readField, readVarint_varint hgroups, Option.bind_some, hfield, htype, h,
    Option.map_some, if_neg hpos.ne']

section

variable {Record : Type} {update : Record → Nat → WireValue → Option Record}
variable {record record' : Record}

theorem mergeFields_mono {fuel fuel' : Nat} (h : bytes.length ≤ fuel) (hle : fuel ≤ fuel') :
    mergeFields update fuel' record bytes = mergeFields update fuel record bytes := by
  induction fuel generalizing fuel' record bytes with
  | zero =>
    obtain rfl := List.length_eq_zero_iff.mp (Nat.le_zero.mp h)
    cases fuel' <;> rfl
  | succ fuel ih =>
    obtain ⟨more, rfl⟩ := Nat.exists_eq_add_of_lt (Nat.lt_of_succ_le hle)
    cases bytes with
    | nil => rfl
    | cons b bytes =>
      simp only [mergeFields]
      cases hfield : readField (b :: bytes) with
      | none => rfl
      | some r =>
        have hshorter := readField_shorter hfield
        rw [List.length_cons] at h hshorter
        have hrest : ∀ record, mergeFields update (fuel + more) record r.2 =
            mergeFields update fuel record r.2 := fun record => ih (by omega) (by omega)
        simp only [Option.bind_some, hrest]

@[simp] theorem merge_nil : merge update record [] = some record := rfl

theorem merge_of_readField {wireValue : WireValue}
    (hfield : readField bytes = some ((number, wireValue), rest))
    (hupdate : update record number wireValue = some record') :
    merge update record bytes = merge update record' rest := by
  have hshorter := readField_shorter hfield
  cases bytes with
  | nil => cases hfield
  | cons b bytes =>
    rw [List.length_cons] at hshorter
    simp only [merge, List.length_cons, mergeFields, hfield, Option.bind_some, hupdate]
    exact mergeFields_mono le_rfl (Nat.le_of_lt_succ hshorter)

theorem merge_varintField (hpos : 0 < number) (hnumber : number < 2 ^ 29)
    (hvalue : value < 2 ^ 64) (hdefault : update record number (.varint 0) = some record)
    (hupdate : update record number (.varint (UInt64.ofNat value)) = some record') :
    merge update record (varintField number value ++ rest) = merge update record' rest := by
  unfold varintField
  split
  · rename_i hzero
    subst hzero
    obtain rfl := Option.some.inj (hdefault.symm.trans hupdate)
    rfl
  · have hgroups : groups value ≤ 10 := groups_le (k := 9) (hvalue.trans (by decide))
    rw [tag, List.append_assoc]
    refine merge_of_readField (readField_of_readValue hpos hnumber (by decide) ?_) hupdate
    simp [readValue, WireType.toNat, readVarint_varint hgroups]

theorem merge_messageField (hpos : 0 < number) (hnumber : number < 2 ^ 29)
    (hbody : body.length < 2 ^ 31)
    (hupdate : update record number (.lengthDelimited body) = some record') :
    merge update record (messageField number body ++ rest) = merge update record' rest := by
  have hgroups : groups body.length ≤ 5 := groups_le (k := 4) (hbody.trans (by decide))
  rw [messageField, tag, List.append_assoc, List.append_assoc]
  refine merge_of_readField (readField_of_readValue hpos hnumber (by decide) ?_) hupdate
  simp [readValue, WireType.toNat, readVarint_varint hgroups, readBytes_append]

theorem merge_fixed64Field {bits : UInt64} (hpos : 0 < number) (hnumber : number < 2 ^ 29)
    (hdefault : update record number (.fixed64 0) = some record)
    (hupdate : update record number (.fixed64 bits) = some record') :
    merge update record (fixed64Field number bits ++ rest) = merge update record' rest := by
  unfold fixed64Field
  split
  · rename_i hzero
    subst hzero
    obtain rfl := Option.some.inj (hdefault.symm.trans hupdate)
    rfl
  · rw [List.append_assoc]
    refine merge_of_readField (readField_of_readValue hpos hnumber (by decide) ?_) hupdate
    have hbytes := ofBytes_map_range bits.toNat 8
    rw [Nat.mod_eq_of_lt (bits.toNat_lt.trans_le (by decide))] at hbytes
    have hlength : ((List.range 8).map fun i => UInt8.ofNat (bits.toNat / 256 ^ i)).length = 8 := by
      rw [List.length_map, List.length_range]
    have hread := @readBytes_append rest
      ((List.range 8).map fun i => UInt8.ofNat (bits.toNat / 256 ^ i))
    rw [hlength] at hread
    simp only [readValue, hread, Option.map_some, hbytes, UInt64.ofNat_toNat]

end

end FastPort.Foundation.ProtoWire
