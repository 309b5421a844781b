import Chronicle.Json.Token
import Mathlib.Data.List.Basic
import Mathlib.Tactic.IntervalCases

/-!
# The texts of numbers

The decimal digits of an integer are a numeral, and its value is the integer as
long as that fits 64 bits, with a sign or without one. The text of a finite
float consists of digits, signs, a point and the mark of an exponent, so it is
never taken for a literal.
-/

namespace Chronicle.Json.Numeral

/-- The digits of a natural number. -/
def digitsOf (n : Nat) : List Nat := (Nat.toDigits 10 n).map fun c => c.toNat - 48

/-- The numeral of an integer. -/
def ofInt (n : Int) : Numeral := ⟨n < 0, digitsOf n.natAbs, [], none⟩

/-- A text of digits is one run. -/
theorem digitRun_of_isDigit {text : List Char} (h : ∀ c ∈ text, c.isDigit = true) :
    digitRun text = (text.map fun c => c.toNat - 48, []) := by
  induction text with
  | nil => rfl
  | cons c rest ih =>
    obtain ⟨hc, hrest⟩ := List.forall_mem_cons.mp h
    rw [digitRun, if_pos hc, ih hrest, List.map_cons]

/-- The digits of a number stand for it. -/
theorem number_digitsOf (n : Nat) : number (digitsOf n) = n := by
  have h : Nat.ofDigitChars 10 (Nat.toDigits 10 n) 0 = n := Nat.ofDigitChars_ten_toDigits
  rw [number, digitsOf, List.foldl_map]
  simpa only [Nat.ofDigitChars, mul_comm, show '0'.toNat = 48 from rfl] using h

/-- The last digit of a number with several stands apart. -/
theorem digitsOf_of_le {n : Nat} (h : 10 ≤ n) :
    digitsOf n = digitsOf (n / 10) ++ [(n % 10).digitChar.toNat - 48] := by
  rw [digitsOf, Nat.toDigits_of_base_le (by decide) h, List.map_append, List.map_singleton,
    digitsOf]

/-- A number below ten is its digit. -/
theorem digitsOf_of_lt {n : Nat} (h : n < 10) : digitsOf n = [n] := by
  interval_cases n <;> rfl

/-- A number that is not zero starts with another digit. -/
theorem exists_digitsOf_cons {n : Nat} (h : 0 < n) :
    ∃ d rest, digitsOf n = d :: rest ∧ d ≠ 0 := by
  induction n using Nat.strongRecOn with
  | ind n ih =>
    rcases Nat.lt_or_ge n 10 with hlt | hle
    · exact ⟨n, [], digitsOf_of_lt hlt, h.ne'⟩
    · obtain ⟨d, rest, hdigits, hd⟩ := ih (n / 10) (by omega) (by omega)
      exact ⟨d, rest ++ [_], by rw [digitsOf_of_le hle, hdigits, List.cons_append], hd⟩

/-- No digits are superfluous. -/
theorem digitsOf_plain (n : Nat) :
    ((digitsOf n).isEmpty || ((digitsOf n).head? == some 0 && 1 < (digitsOf n).length)) =
      false := by
  rcases Nat.eq_zero_or_pos n with rfl | h
  · rfl
  · obtain ⟨d, rest, hdigits, hd⟩ := exists_digitsOf_cons h
    simp [hdigits, hd]

/-- A run of digits without a superfluous zero is a numeral, also after a minus
sign. -/
theorem ofChars?_of_digitRun {text : List Char} {whole : List Nat}
    (hsign : ∀ rest, text ≠ '-' :: rest) (hrun : digitRun text = (whole, []))
    (hplain : (whole.isEmpty || (whole.head? == some 0 && 1 < whole.length)) = false) :
    ofChars? text = some ⟨false, whole, [], none⟩ ∧
      ofChars? ('-' :: text) = some ⟨true, whole, [], none⟩ := by
  constructor
  · rw [ofChars?, hrun]
    · simp only [hplain]
      rfl
    · exact hsign
  · rw [ofChars?, hrun]
    simp only [hplain]
    rfl

/-- The digits of a natural number are its numeral, also after a minus sign. -/
theorem ofChars?_toDigits (n : Nat) :
    ofChars? (Nat.toDigits 10 n) = some ⟨false, digitsOf n, [], none⟩ ∧
      ofChars? ('-' :: Nat.toDigits 10 n) = some ⟨true, digitsOf n, [], none⟩ := by
  have hdigits : ∀ c ∈ Nat.toDigits 10 n, c.isDigit = true := fun c hc =>
    Nat.isDigit_of_mem_toDigits (by decide) (by decide) hc
  refine ofChars?_of_digitRun (fun rest h => ?_) (digitRun_of_isDigit hdigits) (digitsOf_plain n)
  cases hdigits '-' (h ▸ List.mem_cons_self)

/-- The text of an integer is its numeral. -/
theorem ofChars?_toString (n : Int) : ofChars? (toString n).toList = some (ofInt n) := by
  cases n with
  | ofNat m =>
    rw [show toString (Int.ofNat m) = m.repr from rfl, Nat.toList_repr, (ofChars?_toDigits m).1]
    rfl
  | negSucc m =>
    have hneg : ofInt (Int.negSucc m) = ⟨true, digitsOf (m + 1), [], none⟩ := by
      rw [ofInt, decide_eq_true (Int.negSucc_lt_zero m), Int.natAbs_negSucc]
    rw [show toString (Int.negSucc m) = "-" ++ (m + 1).repr from rfl, String.toList_append,
      Nat.toList_repr, show "-".toList = ['-'] by decide, hneg]
    exact (ofChars?_toDigits (m + 1)).2

/-- Digits do not make a number smaller. -/
theorem le_foldl (s : Nat) (digits : List Nat) :
    s ≤ digits.foldl (fun n d => n * 10 + d) s := by
  induction digits generalizing s with
  | nil => exact le_rfl
  | cons d rest ih => exact le_trans (by omega) (ih (s * 10 + d))

/-- Digits of a number that fits 64 bits are all taken. -/
theorem extend_eq {s : Nat} {digits : List Nat}
    (h : digits.foldl (fun n d => n * 10 + d) s < UInt64.size) :
    extend s digits = (digits.foldl (fun n d => n * 10 + d) s, 0) := by
  induction digits generalizing s with
  | nil => rfl
  | cons d rest ih =>
    rw [List.foldl_cons] at h ⊢
    rw [extend, if_pos ((le_foldl _ rest).trans_lt h), ih h]

/-- The numeral of an integer that fits 64 bits has its value. -/
theorem value?_ofInt {n : Int} (hlow : Int64.minValue.toInt ≤ n) (hhigh : n < UInt64.size) :
    (ofInt n).value? = some (.integer n) := by
  have hmin : Int64.minValue.toInt = -9223372036854775808 := rfl
  have hsize : UInt64.size = 18446744073709551616 := rfl
  have hnumber := number_digitsOf n.natAbs
  have hdigits : extend 0 (digitsOf n.natAbs) = (n.natAbs, 0) := by
    rw [extend_eq (by rw [← number, hnumber]; omega), ← number, hnumber]
  rw [value?, ofInt, hdigits]
  by_cases hn : n < 0
  · have hpos : 0 < n.natAbs ∧ Int64.minValue.toInt ≤ -(n.natAbs : Int) := by omega
    have habs : -(n.natAbs : Int) = n := by omega
    simp only [hn, hpos, habs, decide_true, List.isEmpty_nil, Option.isNone_none, Bool.and_self,
      beq_self_eq_true, Bool.not_true, Bool.false_eq_true, if_true, if_false, true_and, hlow]
  · have habs : (n.natAbs : Int) = n := by omega
    simp [hn, habs]

/-- Whether a character can stand in a number. -/
def isNumeric (c : Char) : Bool := c.isDigit || c == '-' || c == '+' || c == '.' || c == 'e'

/-- Whether a text has no characters but those of numbers. -/
def IsNumeric (s : String) : Prop := ∀ c ∈ s.toList, isNumeric c = true

instance (s : String) : Decidable (IsNumeric s) :=
  decidable_of_iff (s.toList.all isNumeric = true) List.all_eq_true

theorem isNumeric_append {s t : String} : IsNumeric (s ++ t) ↔ IsNumeric s ∧ IsNumeric t := by
  simp only [IsNumeric, String.toList_append, List.forall_mem_append]

theorem isNumeric_toString (n : Nat) : IsNumeric (toString n) := by
  intro c hc
  rw [Nat.toString_eq_repr, Nat.toList_repr] at hc
  rw [isNumeric, Nat.isDigit_of_mem_toDigits (by decide) (by decide) hc]
  rfl

/-- An integer is written with the characters of numbers, and with at least one. -/
theorem isNumeric_int (n : Int) : IsNumeric (toString n) ∧ toString n ≠ "" := by
  cases n with
  | ofNat m =>
    rw [show toString (Int.ofNat m) = toString m from rfl]
    exact ⟨isNumeric_toString m, by simp⟩
  | negSucc m =>
    rw [show toString (Int.negSucc m) = "-" ++ toString (m + 1) from rfl]
    exact ⟨isNumeric_append.mpr ⟨by decide, isNumeric_toString _⟩, by simp⟩

theorem isNumeric_pushn (n : Nat) : IsNumeric ("".pushn '0' n) := by
  rw [String.pushn_eq_repeat_push]
  induction n with
  | zero => exact (by decide : IsNumeric "")
  | succ n ih =>
    rw [Nat.repeat, IsNumeric, String.toList_push, List.forall_mem_append]
    exact ⟨ih, List.forall_mem_singleton.mpr rfl⟩

/-- Part of a text of numbers is one. -/
theorem IsNumeric.take_drop {s : String} (h : IsNumeric s) (n : Nat) :
    IsNumeric (s.take n).copy ∧ IsNumeric (s.drop n).copy := by
  have hsplit := String.splits_nextn_startPos s n
  have htake : (s.take n).copy = String.ofList (s.toList.take n) := hsplit.copy_sliceTo_eq
  have hdrop : (s.drop n).copy = String.ofList (s.toList.drop n) := hsplit.copy_sliceFrom_eq
  constructor
  · rw [htake]
    intro c hc
    rw [String.toList_ofList] at hc
    exact h c (List.mem_of_mem_take hc)
  · rw [hdrop]
    intro c hc
    rw [String.toList_ofList] at hc
    exact h c (List.mem_of_mem_drop hc)

/-- Digits with a point among them are a text of numbers. -/
theorem isNumeric_positionalText {suffix digits : String} (hsuffix : IsNumeric suffix)
    (hdigits : IsNumeric digits) (point : Int) :
    IsNumeric (Decimal.positionalText suffix digits point) := by
  rw [Decimal.positionalText]
  split
  · simp only [isNumeric_append]
    exact ⟨⟨by decide, isNumeric_pushn _⟩, hdigits⟩
  · split
    · simp only [isNumeric_append]
      exact ⟨⟨hdigits, isNumeric_pushn _⟩, hsuffix⟩
    · simp only [isNumeric_append]
      exact ⟨⟨(hdigits.take_drop _).1, by decide⟩, (hdigits.take_drop _).2⟩

/-- Digits with an exponent are a text of numbers. -/
theorem isNumeric_scientificText {digits : String} (hdigits : IsNumeric digits) (point : Int) :
    IsNumeric (Decimal.scientificText digits point) := by
  rw [Decimal.scientificText]
  simp only [isNumeric_append]
  refine ⟨⟨⟨⟨(hdigits.take_drop _).1, ?_⟩, by decide⟩, ?_⟩,
    isNumeric_toString _⟩
  · split
    · decide
    · rw [isNumeric_append]
      exact ⟨by decide, (hdigits.take_drop _).2⟩
  · split <;> decide

/-- A finite float is written with the characters of numbers. -/
theorem isNumeric_finiteText {style : Decimal.Style} (hsuffix : IsNumeric style.wholeSuffix)
    (x : Float64) : IsNumeric (style.finiteText x) := by
  have hsign : IsNumeric (if x.isNegative then "-" else "") := by
    split <;> decide
  rw [Decimal.Style.finiteText]
  split
  · simp only [isNumeric_append]
    exact ⟨⟨hsign, by decide⟩, hsuffix⟩
  · rw [isNumeric_append]
    refine ⟨hsign, ?_⟩
    split
    · exact isNumeric_positionalText hsuffix (isNumeric_toString _) _
    · exact isNumeric_scientificText (isNumeric_toString _) _

theorem positionalText_ne_empty {digits : String} (h : digits ≠ "") (suffix : String)
    (point : Int) : Decimal.positionalText suffix digits point ≠ "" := by
  rw [Decimal.positionalText]
  split
  · simp
  · split <;> simp [h]

theorem scientificText_ne_empty (digits : String) (point : Int) :
    Decimal.scientificText digits point ≠ "" := by
  rw [Decimal.scientificText]
  simp

/-- A finite float is written with at least one character. -/
theorem finiteText_ne_empty (style : Decimal.Style) (x : Float64) : style.finiteText x ≠ "" := by
  have hdigits (n : Nat) : toString n ≠ "" := by simp
  rw [Decimal.Style.finiteText]
  split
  · simp
  · intro h
    have hlast := (String.append_eq_empty_iff.mp h).2
    split at hlast
    · exact positionalText_ne_empty (hdigits _) _ _ hlast
    · exact scientificText_ne_empty _ _ hlast

/-- The text of a finite float has the characters of numbers, and at least one. -/
theorem isNumeric_floatText {x : Float64} (h : x.isFinite = true) :
    IsNumeric (floatText x) ∧ floatText x ≠ "" := by
  have hsuffix : IsNumeric floatStyle.wholeSuffix := by decide
  rw [floatText, if_pos h]
  exact ⟨isNumeric_finiteText hsuffix x, finiteText_ne_empty floatStyle x⟩

end Chronicle.Json.Numeral
