import Chronicle.Proofs.ByteOrder
import Chronicle.Schema.Projection

/-!
# Expressions on values

A checked expression applies to every value of the type it was checked for, and
keeps the type. A quotient is that of the integers, rounded down: it never
leaves the range of its type, and a divisor that no signed integer reaches
leaves the quotients that remain. Quotients and first characters or bytes keep
the order of values. The lowercase form of a text does not.
-/

namespace Chronicle

namespace Bytes

/-- A text is written character by character. -/
theorem ofText_ofList (l : List Char) :
    ofText (String.ofList l) = l.flatMap String.utf8EncodeChar := by
  rw [ofText, String.toByteArray_ofList, List.utf8Encode, List.data_toByteArray]

/-- No character is the beginning of another one. -/
theorem eq_of_utf8EncodeChar_isPrefix {c d : Char}
    (h : String.utf8EncodeChar c <+: String.utf8EncodeChar d) : c = d := by
  obtain ⟨rest, hrest⟩ := h
  have hbytes : [c].utf8Encode ++ rest.toByteArray = [d].utf8Encode := by
    rw [List.utf8Encode_singleton, List.utf8Encode_singleton, ← hrest, List.toByteArray_append]
  have hprefix := List.isPrefix_of_utf8Encode_append_eq_utf8Encode _ hbytes
  exact (List.cons_prefix_cons.mp hprefix).1

end Bytes

namespace Value

variable {v w : Value}

/-- Values of one type are ordered by their numbers, then by their bytes. -/
theorem compare_of_type_eq (h : v.type = w.type) :
    compare v w = (compare v.number w.number).then (compare v.content w.content) := by
  have hrank : compare v.type.rank w.type.rank = .eq := by
    rw [h]
    exact Std.ReflOrd.compare_self
  calc compare v w
      = (compare v.type.rank w.type.rank).then
          ((compare v.number w.number).then (compare v.content w.content)) := rfl
    _ = (compare v.number w.number).then (compare v.content w.content) := by
        rw [hrank, Ordering.eq_then]

theorem compare_string (s t : String) :
    compare (string s) (string t) = compare (Bytes.ofText s) (Bytes.ofText t) :=
  compare_of_type_eq (v := string s) (w := string t) rfl

theorem compare_bytes (a b : Bytes) : compare (bytes a) (bytes b) = compare a b :=
  compare_of_type_eq (v := bytes a) (w := bytes b) rfl

/-- Integers of one type are ordered by their numbers. -/
theorem isLE_compare_of_isInteger (h : v.type = w.type) (hv : v.type.isInteger = true) :
    (compare v w).isLE = true ↔ v.number ≤ w.number := by
  have hcontent : ∀ {u : Value}, u.type.isInteger = true → u.content = [] := fun {u} hu => by
    cases u <;> first | rfl | cases hu
  rw [compare_of_type_eq h, hcontent hv, hcontent (h ▸ hv), Std.ReflOrd.compare_self,
    Ordering.then_eq, Int.isLE_compare]

end Value

namespace Expression

/-- An expression keeps the type that it was checked for. -/
theorem outputType_eq {e : Expression} {input output : ScalarType}
    (h : e.outputType input = .ok output) : output = input := by
  cases e <;> simp only [outputType] at h <;> split at h <;> cases h <;> rfl

theorem quotient_eq {n : Int} {divisor : Nat} (h : 0 < divisor) :
    quotient n divisor = .ok (n / divisor) := by
  rw [quotient, if_neg (by omega)]

/-- A signed integer of 64 bits has its quotient rounded down, whatever the
divisor. -/
theorem signedQuotient_eq {n : Int} {divisor : Nat} (h : 0 < divisor)
    (hlow : Int64.minValue.toInt ≤ n) (hhigh : n ≤ Int64.maxValue.toInt) :
    signedQuotient n divisor = .ok (n / divisor) := by
  have hmin : Int64.minValue.toInt = -9223372036854775808 := rfl
  have hmax : Int64.maxValue.toInt = 9223372036854775807 := rfl
  rw [signedQuotient]
  split
  · exact quotient_eq h
  · -- No integer of 64 bits reaches the divisor, so the quotient is zero or minus one.
    split
    · rw [Int.ediv_eq_neg_one_of_neg_of_le (by omega) (by omega)]
    · rw [Int.ediv_eq_zero_of_lt (by omega) (by omega)]

/-- A quotient lies in every range about zero that the integer lies in. -/
theorem ediv_mem_range (low high : Int) {n : Int} {divisor : Nat} (h : 0 < divisor)
    (hzero : low ≤ 0) (hlow : low ≤ n) (hhigh : n ≤ high) (hnonneg : 0 ≤ high) :
    low ≤ n / divisor ∧ n / divisor ≤ high := by
  have hpos : (0 : Int) < divisor := by omega
  have hone : (1 : Int) ≤ divisor := hpos
  constructor
  · have hmul := Int.mul_le_mul_of_nonneg_left hone (show 0 ≤ -low by omega)
    rw [Int.neg_mul, Int.neg_mul] at hmul
    exact Int.le_ediv_of_mul_le hpos (by omega)
  · have hmul := Int.mul_le_mul_of_nonneg_left hone hnonneg
    exact Int.ediv_le_of_le_mul hpos (by omega)

/-- A time and an integer of 64 bits are divided alike. -/
theorem signedQuotient_int64 {n : Nat} (hn : 0 < n) (x : Int64) :
    signedQuotient x.toInt n = .ok (x.toInt / n) ∧
      (Int64.ofInt (x.toInt / n)).toInt = x.toInt / n := by
  have hlow := x.le_toInt
  have hhigh := x.toInt_lt
  obtain ⟨hmin, hmax⟩ := ediv_mem_range (-2 ^ 63) (2 ^ 63 - 1) hn (by omega) hlow (by omega)
    (by omega)
  exact ⟨signedQuotient_eq hn x.minValue_le_toInt (Int64.toInt_le x),
    Int64.toInt_ofInt_of_le hmin (by omega)⟩

/-- Dividing an integer keeps its type and rounds down, and the quotient fits the
type. -/
theorem apply_bucket {n : Nat} {v : Value} (hn : 0 < n) (hv : v.type.isInteger = true) :
    ∃ w, (bucket n).apply v = .ok w ∧ w.type = v.type ∧ w.number = v.number / n := by
  cases v with
  | int32 x =>
    have hlow := x.le_toInt
    have hhigh := x.toInt_lt
    have hmin64 : Int64.minValue.toInt = -2 ^ 63 := rfl
    have hmax64 : Int64.maxValue.toInt = 2 ^ 63 - 1 := rfl
    obtain ⟨hmin, hmax⟩ := ediv_mem_range (-2 ^ 31) (2 ^ 31 - 1) hn (by omega) hlow (by omega)
      (by omega)
    have hquotient := signedQuotient_eq (n := x.toInt) hn (by omega) (by omega)
    refine ⟨.int32 (Int32.ofInt (x.toInt / n)), ?_, rfl, ?_⟩
    · rw [apply, hquotient]
      rfl
    · exact Int32.toInt_ofInt_of_le hmin (by omega)
  | int64 x =>
    obtain ⟨hquotient, hfits⟩ := signedQuotient_int64 hn x
    refine ⟨.int64 (Int64.ofInt (x.toInt / n)), ?_, rfl, hfits⟩
    rw [apply, hquotient]
    rfl
  | timestamp x =>
    obtain ⟨hquotient, hfits⟩ := signedQuotient_int64 hn x
    refine ⟨.timestamp (Int64.ofInt (x.toInt / n)), ?_, rfl, hfits⟩
    rw [apply, hquotient]
    rfl
  | uint32 x =>
    have hfits : x.toNat / n < UInt32.size := Nat.lt_of_le_of_lt (Nat.div_le_self ..) x.toNat_lt
    refine ⟨.uint32 (UInt32.ofNat (x.toNat / n)), ?_, rfl, ?_⟩
    · rw [apply, quotient_eq hn]
      rfl
    · exact congrArg Int.ofNat (UInt32.toNat_ofNat_of_lt' hfits)
  | uint64 x =>
    have hfits : x.toNat / n < UInt64.size := Nat.lt_of_le_of_lt (Nat.div_le_self ..) x.toNat_lt
    refine ⟨.uint64 (UInt64.ofNat (x.toNat / n)), ?_, rfl, ?_⟩
    · rw [apply, quotient_eq hn]
      rfl
    · exact congrArg Int.ofNat (UInt64.toNat_ofNat_of_lt' hfits)
  | _ => cases hv

/-- Whatever the bucket of an integer is, it is the quotient rounded down. -/
theorem of_apply_bucket {n : Nat} {v w : Value} (hn : 0 < n) (hv : v.type.isInteger = true)
    (h : (bucket n).apply v = .ok w) : w.type = v.type ∧ w.number = v.number / n := by
  obtain ⟨w', hw', htype, hnumber⟩ := apply_bucket hn hv
  rw [h] at hw'
  cases hw'
  exact ⟨htype, hnumber⟩

theorem outputType_bucket_eq_ok {n : Nat} {input output : ScalarType}
    (h : (bucket n).outputType input = .ok output) : 0 < n ∧ input.isInteger = true := by
  simp only [outputType] at h
  split at h
  · rename_i happlies
    simpa only [decide_eq_true_eq] using happlies
  · cases h

theorem outputType_bucket {n : Nat} {input : ScalarType} (hn : 0 < n)
    (hinput : input.isInteger = true) : (bucket n).outputType input = .ok input := by
  simp [outputType, hn, hinput]

/-- A checked expression applies to every value of the type. -/
theorem exists_apply {e : Expression} {v : Value} {output : ScalarType}
    (h : e.outputType v.type = .ok output) : ∃ w, e.apply v = .ok w ∧ w.type = v.type := by
  cases e with
  | lowercase =>
    cases v <;> simp [outputType, Value.type] at h
    exact ⟨_, rfl, rfl⟩
  | truncate n =>
    cases v <;> simp [outputType, Value.type] at h
    · exact ⟨_, rfl, rfl⟩
    · exact ⟨_, rfl, rfl⟩
  | bucket n =>
    obtain ⟨hn, hv⟩ := outputType_bucket_eq_ok h
    obtain ⟨w, hw, htype, -⟩ := apply_bucket hn hv
    exact ⟨w, hw, htype⟩

/-- The first characters of texts keep their order. -/
theorem isLE_compare_take_text {s t : String} (n : Nat)
    (h : (compare (Value.string s) (.string t)).isLE = true) :
    (compare (Value.string (String.ofList (s.toList.take n)))
      (.string (String.ofList (t.toList.take n)))).isLE = true := by
  rw [← String.ofList_toList (s := s), ← String.ofList_toList (s := t), Value.compare_string,
    Bytes.ofText_ofList, Bytes.ofText_ofList] at h
  rw [Value.compare_string, Bytes.ofText_ofList, Bytes.ofText_ofList]
  exact Bytes.isLE_compare_take (fun _ => String.utf8EncodeChar_ne_nil)
    (fun _ _ => Bytes.eq_of_utf8EncodeChar_isPrefix) n h

/-- The first bytes of byte strings keep their order. -/
theorem isLE_compare_take_bytes {a b : Bytes} (n : Nat)
    (h : (compare (Value.bytes a) (.bytes b)).isLE = true) :
    (compare (Value.bytes (a.take n)) (.bytes (b.take n))).isLE = true := by
  have hsingle : ∀ x y : UInt8, [x] <+: [y] → x = y := fun x y h => (List.cons_prefix_cons.mp h).1
  have htake := Bytes.isLE_compare_take (fun x => List.cons_ne_nil x []) hsingle n (a := a) (b := b)
  rw [List.flatMap_singleton', List.flatMap_singleton', List.flatMap_singleton',
    List.flatMap_singleton'] at htake
  rw [Value.compare_bytes] at h ⊢
  exact htake h

/-- Expressions keep the order of values, save for the lowercase form. -/
theorem isLE_compare_apply {e : Expression} (he : e ≠ lowercase) {v w v' w' : Value}
    {output : ScalarType} (houtput : e.outputType v.type = .ok output) (htype : v.type = w.type)
    (hv : e.apply v = .ok v') (hw : e.apply w = .ok w') (h : (compare v w).isLE = true) :
    (compare v' w').isLE = true := by
  cases e with
  | lowercase => exact absurd rfl he
  | truncate n =>
    cases v with
    | string s =>
      cases w <;> cases htype
      cases hv
      cases hw
      exact isLE_compare_take_text n h
    | bytes a =>
      cases w <;> cases htype
      cases hv
      cases hw
      exact isLE_compare_take_bytes n h
    | _ => cases hv
  | bucket n =>
    obtain ⟨hn, hinteger⟩ := outputType_bucket_eq_ok houtput
    obtain ⟨htypev, hnumberv⟩ := of_apply_bucket hn hinteger hv
    obtain ⟨htypew, hnumberw⟩ := of_apply_bucket hn (htype ▸ hinteger) hw
    rw [Value.isLE_compare_of_isInteger htype hinteger] at h
    rw [Value.isLE_compare_of_isInteger (by rw [htypev, htypew, htype]) (htypev ▸ hinteger),
      hnumberv, hnumberw]
    exact Int.ediv_le_ediv (by omega) h

end Expression

end Chronicle
