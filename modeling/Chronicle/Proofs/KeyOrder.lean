import Chronicle.Proofs.ByteOrder
import Chronicle.Storage.Key

/-!
# Keys are ordered like their tuples

The bytes of a value are decided against those of any other value: a type byte
that differs decides at once, numbers have a fixed width, and escaped strings
end in a mark that no string contains. Fields that follow one another therefore
compare one after the other, each in its own direction, and the key of a tuple
stands for that tuple alone.
-/

namespace Chronicle

/-- A direction keeps the outcome of equality. -/
theorem Direction.apply_eq_eq {d : Direction} {o : Ordering} : d.apply o = .eq ↔ o = .eq := by
  cases d <;> simp [apply]

namespace Comparator

variable {α : Type u} [Ord α]

/-- Without a rule that depends on positions, the position at which a
comparison starts has no effect. -/
theorem compareFrom_position (p q : Nat) (directions : List Direction) (a b : List α) :
    compareFrom (fun _ x y => Ord.compare x y) p directions a b =
      compareFrom (fun _ x y => Ord.compare x y) q directions a b := by
  induction a generalizing b directions p q with
  | nil => cases b <;> rfl
  | cons x a ih =>
    cases b with
    | nil => rfl
    | cons y b => rw [compareFrom, compareFrom, ih]

@[simp] theorem compare_nil_nil (c : Comparator) : c.compare ([] : List α) [] = .eq := by
  rw [compare, compareFrom]

theorem compare_nil_cons (c : Comparator) (y : α) (b : List α) : c.compare [] (y :: b) = .lt := by
  rw [compare, compareFrom]

theorem compare_cons_nil (c : Comparator) (x : α) (a : List α) : c.compare (x :: a) [] = .gt := by
  rw [compare, compareFrom]

/-- The first fields decide unless they are equal. -/
theorem compare_cons_cons (directions : List Direction) (x y : α) (a b : List α) :
    (Comparator.mk directions).compare (x :: a) (y :: b) =
      ((directions.headD .asc).apply (Ord.compare x y)).then
        ((Comparator.mk directions.tail).compare a b) := by
  rw [compare, compareFrom, compare, compareFrom_position]

/-- Only equal tuples compare as equal. -/
theorem eq_of_compare [Std.LawfulEqOrd α] {directions : List Direction} {a b : List α}
    (h : (Comparator.mk directions).compare a b = .eq) : a = b := by
  induction a generalizing b directions with
  | nil =>
    cases b with
    | nil => rfl
    | cons y b => simp [compare_nil_cons] at h
  | cons x a ih =>
    cases b with
    | nil => simp [compare_cons_nil] at h
    | cons y b =>
      rw [compare_cons_cons, Ordering.then_eq_eq] at h
      obtain ⟨hxy, hab⟩ := h
      rw [Std.LawfulEqOrd.eq_of_compare (Direction.apply_eq_eq.mp hxy), ih hab]

end Comparator

namespace Key

open Bytes

/-- Escaped strings are decided by the strings. -/
theorem decided_escape (a b : Bytes) : Decided (escape a) (escape b) (compare a b) := by
  have zero_lt {y : UInt8} (hy : y ≠ 0) : compare 0 y = .lt := by
    have : (0 : UInt8) < y := UInt8.pos_iff_ne_zero.mpr hy
    simp [compare, compareOfLessAndEq, this]
  induction a generalizing b with
  | nil =>
    cases b with
    | nil => exact .cons _ (.cons _ .nil)
    | cons y b =>
      rw [List.compare_nil_cons, escape, escape]
      split
      · exact .cons _ (.differ _ _ rfl (by decide))
      · exact .differ _ _ (zero_lt ‹_›) (by decide)
  | cons x a ih =>
    cases b with
    | nil =>
      rw [List.compare_cons_nil, escape, escape]
      split
      · exact .cons _ (.differ _ _ rfl (by decide))
      · exact .differ _ _ (Std.OrientedCmp.gt_of_lt (zero_lt ‹_›)) (by decide)
    | cons y b =>
      rw [List.compare_cons_cons, escape, escape]
      by_cases hxy : x = y
      · subst hxy
        rw [Std.ReflOrd.compare_self, Ordering.eq_then]
        split
        · exact .cons _ (.cons _ (ih b))
        · exact .cons _ (ih b)
      · have hne : compare x y ≠ .eq := fun h => hxy (Std.LawfulEqOrd.eq_of_compare h)
        rw [then_of_ne hne]
        by_cases hx : x = 0
        · subst hx
          rw [if_pos rfl, if_neg (Ne.symm hxy)]
          exact .differ _ _ rfl hne
        · rw [if_neg hx]
          by_cases hy : y = 0
          · subst hy
            rw [if_pos rfl]
            exact .differ _ _ rfl hne
          · rw [if_neg hy]
            exact .differ _ _ rfl hne

/-- Shifting integers so that they start at zero keeps their order. -/
theorem compare_shifted {low i j : Int} (hi : low ≤ i) (hj : low ≤ j) :
    compare (i - low).toNat (j - low).toNat = compare i j := by
  simp only [compare, compareOfLessAndEq]
  have hlt : (i - low).toNat < (j - low).toNat ↔ i < j := by omega
  have heq : (i - low).toNat = (j - low).toNat ↔ i = j := by omega
  simp only [hlt, heq]

theorem compare_natCast (m n : Nat) : compare (m : Int) (n : Int) = compare m n := by
  simp only [compare, compareOfLessAndEq, Int.ofNat_lt, Int.ofNat_inj]

/-- The bytes of a value are decided against those of any value of its type. -/
theorem decided_body {v w : Value} (h : v.type = w.type) :
    Decided (body v) (body w)
      ((compare v.number w.number).then (compare v.content w.content)) := by
  cases v <;> cases w <;> simp only [Value.type, reduceCtorEq] at h <;>
    simp only [body, Value.number, Value.content]
  case bool.bool a b => cases a <;> cases b <;> exact decided_of_length_eq rfl
  case int32.int32 a b =>
    have ha := a.minValue_le_toInt
    have hb := b.minValue_le_toInt
    have ha' := a.toInt_lt
    have hb' := b.toInt_lt
    have hlow : Int32.minValue.toInt = -2147483648 := rfl
    rw [← compare_shifted ha hb]
    simpa using decided_bigEndian 4 (by omega) (by omega)
  case uint32.uint32 a b =>
    rw [compare_natCast]
    simpa using decided_bigEndian 4 a.toNat_lt b.toNat_lt
  case uint64.uint64 a b =>
    rw [compare_natCast]
    simpa using decided_bigEndian 8 a.toNat_lt b.toNat_lt
  case float64.float64 a b =>
    rw [compare_natCast]
    simpa using decided_bigEndian 8 a.orderKey_lt b.orderKey_lt
  case string.string a b => simpa using decided_escape (ofText a) (ofText b)
  case bytes.bytes a b => simpa using decided_escape a b
  case checksum256.checksum256 a b =>
    simpa using decided_of_length_eq (a.length_eq.trans b.length_eq.symm)
  all_goals
    rename_i a b
    have ha := a.minValue_le_toInt
    have hb := b.minValue_le_toInt
    have ha' := a.toInt_lt
    have hb' := b.toInt_lt
    have hlow : Int64.minValue.toInt = -9223372036854775808 := rfl
    rw [← compare_shifted ha hb]
    simpa using decided_bigEndian 8 (by omega) (by omega)

theorem compare_typeByte (s t : ScalarType) :
    compare (typeByte s) (typeByte t) = compare s.rank t.rank := by
  cases s <;> cases t <;> rfl

/-- The bytes of a value are decided against those of any other value. -/
theorem decided_ofValue (v w : Value) : Decided (ofValue v) (ofValue w) (compare v w) := by
  have hcmp : compare v w = (compare v.type.rank w.type.rank).then
      ((compare v.number w.number).then (compare v.content w.content)) := rfl
  rw [hcmp, ofValue, ofValue]
  by_cases h : v.type = w.type
  · rw [h, Std.ReflOrd.compare_self, Ordering.eq_then]
    exact .cons _ (decided_body h)
  · have hne : compare v.type.rank w.type.rank ≠ .eq := fun he =>
      h (ScalarType.rank_inj.mp (Std.LawfulEqOrd.eq_of_compare he))
    rw [then_of_ne hne]
    exact .differ (body v) (body w) (compare_typeByte v.type w.type) hne

/-- A direction decides like its seen outcome. -/
theorem decided_ofField (direction : Direction) (v w : Value) :
    Decided (ofField direction v) (ofField direction w) (direction.apply (compare v w)) := by
  cases direction with
  | asc => exact decided_ofValue v w
  | desc => exact (decided_ofValue v w).complement

theorem ofField_ne_nil (direction : Direction) (v : Value) : ofField direction v ≠ [] := by
  cases direction <;> simp [ofField, ofValue, complement]

/-- Keys compare like their tuples. -/
theorem compare_ofTuple (directions : List Direction) (a b : Tuple) :
    compare (ofTuple directions a) (ofTuple directions b) =
      (Comparator.mk directions).compare a b := by
  induction a generalizing b directions with
  | nil =>
    cases b with
    | nil => simp [ofTuple]
    | cons w b =>
      obtain ⟨x, rest, hx⟩ := List.exists_cons_of_ne_nil
        (List.append_ne_nil_of_left_ne_nil (ofField_ne_nil (directions.headD .asc) w)
          (ofTuple directions.tail b))
      rw [Comparator.compare_nil_cons, ofTuple, ofTuple, hx, List.compare_nil_cons]
  | cons v a ih =>
    cases b with
    | nil =>
      obtain ⟨x, rest, hx⟩ := List.exists_cons_of_ne_nil
        (List.append_ne_nil_of_left_ne_nil (ofField_ne_nil (directions.headD .asc) v)
          (ofTuple directions.tail a))
      rw [Comparator.compare_cons_nil, ofTuple, ofTuple, hx, List.compare_cons_nil]
    | cons w b =>
      rw [ofTuple, ofTuple, (decided_ofField _ v w).compare_append, ih,
        Comparator.compare_cons_cons]

/-- Keys of tuples of one length are decided by the tuples. -/
theorem decided_ofTuple {directions : List Direction} {a b : Tuple} (h : a.length = b.length) :
    Decided (ofTuple directions a) (ofTuple directions b)
      ((Comparator.mk directions).compare a b) := by
  induction a generalizing b directions with
  | nil =>
    obtain rfl := List.length_eq_zero_iff.mp h.symm
    simpa [ofTuple] using Decided.nil
  | cons v a ih =>
    cases b with
    | nil => simp at h
    | cons w b =>
      rw [Comparator.compare_cons_cons]
      exact (decided_ofField _ v w).append (ih (by simpa using h))

/-- A key stands for one tuple. -/
theorem ofTuple_inj {directions : List Direction} {a b : Tuple} :
    ofTuple directions a = ofTuple directions b ↔ a = b := by
  refine ⟨fun h => ?_, fun h => h ▸ rfl⟩
  have hc := compare_ofTuple directions a b
  rw [h, Std.ReflOrd.compare_self] at hc
  exact Comparator.eq_of_compare hc.symm

/-- Keys are ordered like their tuples, are equal only for equal tuples, and of
two tuples of one length neither key is a proper prefix of the other. -/
theorem ofTuple_preserves_order (directions : List Direction) (a b : Tuple) :
    compare (ofTuple directions a) (ofTuple directions b) =
        (Comparator.mk directions).compare a b ∧
      (ofTuple directions a = ofTuple directions b ↔ a = b) ∧
      (a.length = b.length →
        (ofTuple directions a <+: ofTuple directions b ∨
          ofTuple directions b <+: ofTuple directions a) →
        ofTuple directions a = ofTuple directions b) := by
  refine ⟨compare_ofTuple directions a b, ofTuple_inj, fun hlen hprefix => ?_⟩
  rcases hprefix with hab | hba
  · exact (decided_ofTuple hlen).eq_of_isPrefix hab
  · exact ((decided_ofTuple hlen.symm).eq_of_isPrefix hba).symm

/-- A zero byte is marked, and the whole descending field is inverted. -/
example : ofTuple [.desc] [.bytes [0], .bool true] =
    [0xF7, 0xFF, 0x00, 0xFF, 0xFE, 0x01, 0x01] := by decide

end Key
end Chronicle
