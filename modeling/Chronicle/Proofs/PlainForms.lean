import Chronicle.Proofs.TypedTuples

/-!
# Values read back from plain JSON

The plain form of a value drops the type, and the type of a field is at hand
when it is read. Whatever is read has that type. Every value is read back from
its plain form except a float that is infinite or no number, which has none: its
place is taken by null, and no type reads null.
-/

namespace Chronicle

/-- Whether a value has a plain form of its own. Infinities and NaN have none. -/
def Value.isFinite : Value → Bool
  | .float64 x => x.isFinite
  | _ => true

namespace ScalarType

variable {t : ScalarType} {j : Json} {v : Value}

/-- Whatever is read with a type has that type. -/
theorem type_of_ofJson? (h : t.ofJson? j = some v) : v.type = t := by
  cases t with
  | bool | string =>
    cases j <;> cases h
    rfl
  | int32 | int64 | uint32 | uint64 | timestamp =>
    obtain ⟨n, -, rfl⟩ := Option.map_eq_some_iff.mp h
    rfl
  | float64 => cases j <;> cases h <;> rfl
  | bytes | checksum256 =>
    cases j with
    | string s =>
      obtain ⟨b, -, rfl⟩ := Option.map_eq_some_iff.mp h
      rfl
    | _ => cases h

/-- No type reads null. -/
theorem ofJson?_null (t : ScalarType) : t.ofJson? .null = none := by
  cases t <;> rfl

/-- An integer of a range is read, whatever texts may spell. -/
theorem within_integer {low high n : Int} (hlow : low ≤ n) (hhigh : n ≤ high)
    (spelled : String → Option Int) :
    within low high (integerOf? spelled (.integer n)) = some n := by
  rw [integerOf?, within, Option.filter_some,
    if_pos (by simp only [hlow, hhigh, and_self, decide_true])]

/-- A signed integer of 64 bits is read back. -/
theorem signed64?_integer (n : Int64) : ofJson?.signed64? (.integer n.toInt) = some n := by
  have hlow := n.minValue_le_toInt
  have hhigh : n.toInt ≤ Int64.maxValue.toInt := Int64.toInt_le n
  rw [ofJson?.signed64?, within_integer hlow hhigh, Option.map_some, Int64.ofInt_toInt]

/-- A value with a plain form is read back from it. -/
theorem ofJson?_toJson (h : v.isFinite = true) : v.type.ofJson? v.toJson = some v := by
  cases v with
  | bool b => rfl
  | int32 n =>
    have hlow := n.minValue_le_toInt
    have hhigh : n.toInt ≤ Int32.maxValue.toInt := Int32.toInt_le n
    rw [Value.type, Value.toJson, ofJson?, within_integer hlow hhigh, Option.map_some,
      Int32.ofInt_toInt]
  | int64 n => rw [Value.type, Value.toJson, ofJson?, signed64?_integer, Option.map_some]
  | uint32 n =>
    have hlt := n.toNat_lt
    have hhigh : (n.toNat : Int) ≤ UInt32.size - 1 := by
      have hsize : UInt32.size = 4294967296 := rfl
      omega
    rw [Value.type, Value.toJson, ofJson?, within_integer (by omega) hhigh, Option.map_some,
      Int.toNat_natCast, UInt32.ofNat_toNat]
  | uint64 n =>
    have hlt := n.toNat_lt
    have hhigh : (n.toNat : Int) ≤ UInt64.size - 1 := by
      have hsize : UInt64.size = 18446744073709551616 := rfl
      omega
    rw [Value.type, Value.toJson, ofJson?, within_integer (by omega) hhigh, Option.map_some,
      Int.toNat_natCast, UInt64.ofNat_toNat]
  | float64 x =>
    have hx : x.isFinite = true := h
    rw [Value.toJson, if_pos hx]
    rfl
  | string s => rfl
  | bytes b => rw [Value.type, Value.toJson, ofJson?, Text.Hex.decode_encode, Option.map_some]
  | checksum256 c =>
    have hc : Checksum.ofBytes? c.bytes = some c := dif_pos c.length_eq
    rw [Value.type, Value.toJson, ofJson?, Text.Hex.decode_encode, Option.bind_some, hc,
      Option.map_some]
  | timestamp n => rw [Value.type, Value.toJson, ofJson?, signed64?_integer, Option.map_some]

/-- A value without a plain form is written as null. -/
theorem toJson_of_not_isFinite (h : v.isFinite = false) : v.toJson = .null := by
  cases v with
  | float64 x =>
    have hx : ¬x.isFinite = true := by simpa only [Value.isFinite, Bool.not_eq_true] using h
    rw [Value.toJson, if_neg hx]
  | _ => cases h

theorem valueOfJson_eq_ok : t.valueOfJson j = .ok v ↔ t.ofJson? j = some v := by
  rw [valueOfJson]
  cases t.ofJson? j <;> simp

/-- A form that is not read is refused as a violation. -/
theorem valueOfJson_eq_error (h : t.ofJson? j = none) :
    ∃ cause, t.valueOfJson j = .error (.violation cause) := by
  rw [valueOfJson, h]
  exact ⟨_, rfl⟩

/-- A value without a plain form is read back by no type. -/
theorem valueOfJson_of_not_isFinite (t : ScalarType) (h : v.isFinite = false) :
    ∃ cause, t.valueOfJson v.toJson = .error (.violation cause) := by
  rw [toJson_of_not_isFinite h]
  exact valueOfJson_eq_error (ofJson?_null t)

end ScalarType
end Chronicle
