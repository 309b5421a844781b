import Mathlib.Algebra.Group.Nat.Defs
import Chronicle.Bytes

/-!
# The order of composed byte strings

A byte string that is built from parts is ordered by its first part unless two
first parts agree. That needs parts which cannot end inside one another, so the
comparison of two parts is decided before either ends. Fixed-width numbers have
this property, and inverting all bits keeps it while reversing the outcome.
-/

namespace Chronicle.Bytes

/-- Only the outcome of equality leaves the decision to what follows. -/
theorem then_of_ne {o : Ordering} (ho : o ≠ .eq) (o' : Ordering) : o.then o' = o := by
  cases o with
  | lt => rfl
  | eq => exact absurd rfl ho
  | gt => rfl

/-- Two byte strings agree, or differ at a byte before either of them ends,
with the given outcome. -/
inductive Decided : Bytes → Bytes → Ordering → Prop where
  /-- Both end together. -/
  | nil : Decided [] [] .eq
  /-- The first bytes agree and the rest decides. -/
  | cons (x : UInt8) {a b : Bytes} {o : Ordering} : Decided a b o → Decided (x :: a) (x :: b) o
  /-- The first bytes differ and decide. -/
  | differ {x y : UInt8} {o : Ordering} (a b : Bytes) :
    compare x y = o → o ≠ .eq → Decided (x :: a) (y :: b) o

namespace Decided

variable {a b s t : Bytes} {o o' : Ordering}

/-- What follows matters only if the decided parts agree. -/
theorem compare_append (h : Decided a b o) (s t : Bytes) :
    compare (a ++ s) (b ++ t) = o.then (compare s t) := by
  induction h with
  | nil => rfl
  | cons x _ ih =>
    rw [List.cons_append, List.cons_append, List.compare_cons_cons, ih]
    simp
  | differ a b hxy ho =>
    rw [List.cons_append, List.cons_append, List.compare_cons_cons, hxy, then_of_ne ho,
      then_of_ne ho]

/-- The outcome is that of the byte order. -/
theorem compare_eq (h : Decided a b o) : compare a b = o := by
  have := h.compare_append [] []
  simpa using this

/-- Strings without a difference are equal. -/
theorem eq_of_eq (h : Decided a b .eq) : a = b :=
  Std.LawfulEqOrd.eq_of_compare h.compare_eq

/-- A difference decides whatever follows. -/
theorem append_of_ne (h : Decided a b o) (ho : o ≠ .eq) (s t : Bytes) :
    Decided (a ++ s) (b ++ t) o := by
  induction h with
  | nil => exact absurd rfl ho
  | cons x _ ih => exact .cons x (ih ho)
  | differ a b hxy ho => exact .differ _ _ hxy ho

/-- Decided strings stay decided when more of them follow. -/
theorem append (h : Decided a b o) (h' : Decided s t o') :
    Decided (a ++ s) (b ++ t) (o.then o') := by
  by_cases ho : o = .eq
  · subst ho
    obtain rfl := h.eq_of_eq
    induction a with
    | nil => exact h'
    | cons x a ih =>
      cases h with
      | cons _ h => exact .cons x (ih h)
      | differ _ _ _ ho => exact absurd rfl ho
  · rw [then_of_ne ho]
    exact h.append_of_ne ho s t

/-- A decided string that is a prefix of the other is the whole of it. -/
theorem eq_of_isPrefix (h : Decided a b o) (hp : a <+: b) : a = b := by
  induction h with
  | nil => rfl
  | cons x _ ih => rw [ih (List.cons_prefix_cons.mp hp).2]
  | differ a b hxy ho =>
    obtain ⟨rfl, _⟩ := List.cons_prefix_cons.mp hp
    exact absurd (hxy.symm.trans Std.ReflOrd.compare_self) ho

end Decided

/-- Strings of one length are decided. -/
theorem decided_of_length_eq {a b : Bytes} (h : a.length = b.length) :
    Decided a b (compare a b) := by
  induction a generalizing b with
  | nil =>
    obtain rfl := List.length_eq_zero_iff.mp h.symm
    exact .nil
  | cons x a ih =>
    cases b with
    | nil => simp at h
    | cons y b =>
      rw [List.compare_cons_cons]
      by_cases hxy : compare x y = .eq
      · obtain rfl := Std.LawfulEqOrd.eq_of_compare hxy
        rw [hxy, Ordering.eq_then]
        exact .cons x (ih (by simpa using h))
      · rw [then_of_ne hxy]
        exact .differ a b rfl hxy

/-- A common beginning has no effect on an order. -/
theorem compare_append_left (a s t : Bytes) : compare (a ++ s) (a ++ t) = compare s t := by
  have h := (decided_of_length_eq (a := a) (b := a) rfl).compare_append s t
  rwa [Std.ReflOrd.compare_self, Ordering.eq_then] at h

/-- Strings of which neither begins with the other are decided. -/
theorem decided_of_not_isPrefix {a b : Bytes} (hab : ¬a <+: b) (hba : ¬b <+: a) :
    ∃ o, o ≠ .eq ∧ Decided a b o := by
  induction a generalizing b with
  | nil => exact absurd List.nil_prefix hab
  | cons x a ih =>
    cases b with
    | nil => exact absurd List.nil_prefix hba
    | cons y b =>
      by_cases hxy : x = y
      · subst hxy
        rw [List.cons_prefix_cons, not_and] at hab hba
        obtain ⟨o, ho, hdecided⟩ := ih (hab rfl) (hba rfl)
        exact ⟨o, ho, .cons x hdecided⟩
      · have hne : compare x y ≠ .eq := fun h => hxy (Std.LawfulEqOrd.eq_of_compare h)
        exact ⟨_, hne, .differ a b rfl hne⟩

/-- Strings that are written letter by letter stay in order when only the first
letters are kept. No letter is empty or begins with another one, so a difference
is either kept as it is or cut off. -/
theorem isLE_compare_take {α : Type} {write : α → Bytes} (hne : ∀ c, write c ≠ [])
    (hcode : ∀ c d, write c <+: write d → c = d) (n : Nat) {a b : List α}
    (h : (compare (a.flatMap write) (b.flatMap write)).isLE = true) :
    (compare ((a.take n).flatMap write) ((b.take n).flatMap write)).isLE = true := by
  induction n generalizing a b with
  | zero => rfl
  | succ n ih =>
    cases a with
    | nil =>
      generalize ((b.take (n + 1)).flatMap write) = rest
      cases rest <;> rfl
    | cons c a =>
      cases b with
      | nil =>
        -- A text that is not empty does not come before the empty one.
        obtain ⟨x, rest, hx⟩ := List.exists_cons_of_ne_nil (hne c)
        rw [List.flatMap_cons, hx] at h
        cases h
      | cons d b =>
        rw [List.flatMap_cons, List.flatMap_cons] at h
        rw [List.take_succ_cons, List.take_succ_cons, List.flatMap_cons, List.flatMap_cons]
        by_cases hcd : c = d
        · subst hcd
          rw [compare_append_left] at h ⊢
          exact ih h
        · obtain ⟨o, ho, hdecided⟩ := decided_of_not_isPrefix (fun hp => hcd (hcode c d hp))
            (fun hp => hcd (hcode d c hp).symm)
          rw [hdecided.compare_append, then_of_ne ho] at h ⊢
          exact h

/-- Inverting all bits of a byte reverses its order. -/
theorem compare_not (x y : UInt8) : compare (~~~x) (~~~y) = (compare x y).swap := by
  have hnot (z : UInt8) : (~~~z).toNat = 255 - z.toNat := by simp
  have hx := x.toNat_lt
  have hy := y.toNat_lt
  simp only [compare, compareOfLessAndEq, UInt8.lt_iff_toNat_lt, ← UInt8.toNat_inj, hnot]
  rcases Nat.lt_trichotomy x.toNat y.toNat with h | h | h
  · rw [if_neg (by omega), if_neg (by omega), if_pos h]
    rfl
  · rw [if_neg (by omega), if_pos (by omega), if_neg (by omega), if_pos h]
    rfl
  · rw [if_pos (by omega), if_neg (by omega), if_neg (by omega)]
    rfl

/-- Inverting all bits reverses a decided outcome. -/
theorem Decided.complement {a b : Bytes} {o : Ordering} (h : Decided a b o) :
    Decided (Bytes.complement a) (Bytes.complement b) o.swap := by
  induction h with
  | nil => exact .nil
  | cons x _ ih => exact .cons _ ih
  | differ a b hxy ho =>
    refine .differ _ _ (by rw [compare_not, hxy]) ?_
    simpa using ho

/-- The last digit of a number in base 256 and the others compare like the
number. -/
theorem compare_div_then_mod (m n : Nat) :
    (compare (m / 256) (n / 256)).then (compare (m % 256) (n % 256)) = compare m n := by
  rcases Nat.lt_trichotomy (m / 256) (n / 256) with h | h | h
  · have hmn : m < n := by omega
    rw [Nat.compare_eq_lt.mpr h, Nat.compare_eq_lt.mpr hmn]
    rfl
  · rw [Nat.compare_eq_eq.mpr h, Ordering.eq_then]
    rcases Nat.lt_trichotomy m n with hmn | hmn | hmn
    · have : m % 256 < n % 256 := by omega
      rw [Nat.compare_eq_lt.mpr hmn, Nat.compare_eq_lt.mpr this]
    · rw [hmn, Nat.compare_eq_eq.mpr rfl, Nat.compare_eq_eq.mpr rfl]
    · have : n % 256 < m % 256 := by omega
      rw [Nat.compare_eq_gt.mpr hmn, Nat.compare_eq_gt.mpr this]
  · have hmn : n < m := by omega
    rw [Nat.compare_eq_gt.mpr h, Nat.compare_eq_gt.mpr hmn]
    rfl

/-- Digits compare like their numbers. -/
theorem compare_ofNat (m n : Nat) :
    compare (UInt8.ofNat m) (UInt8.ofNat n) = compare (m % 256) (n % 256) := by
  simp only [compare, compareOfLessAndEq, UInt8.lt_iff_toNat_lt, ← UInt8.toNat_inj,
    UInt8.toNat_ofNat']

/-- Numbers of a fixed width are ordered by value. -/
theorem compare_bigEndian {width m n : Nat} (hm : m < 256 ^ width) (hn : n < 256 ^ width) :
    compare (bigEndian width m) (bigEndian width n) = compare m n := by
  induction width generalizing m n with
  | zero =>
    obtain rfl : m = 0 := by simpa using hm
    obtain rfl : n = 0 := by simpa using hn
    rfl
  | succ width ih =>
    have hdm : m / 256 < 256 ^ width := Nat.div_lt_of_lt_mul (by rwa [Nat.pow_succ'] at hm)
    have hdn : n / 256 < 256 ^ width := Nat.div_lt_of_lt_mul (by rwa [Nat.pow_succ'] at hn)
    have hd := decided_of_length_eq
      (a := bigEndian width (m / 256)) (b := bigEndian width (n / 256)) (by simp)
    rw [bigEndian, bigEndian, hd.compare_append, ih hdm hdn, ← compare_div_then_mod m n,
      List.compare_cons_cons, compare_ofNat]
    simp

/-- Numbers of a fixed width are decided by value. -/
theorem decided_bigEndian (width : Nat) {m n : Nat} (hm : m < 256 ^ width) (hn : n < 256 ^ width) :
    Decided (bigEndian width m) (bigEndian width n) (compare m n) := by
  rw [← compare_bigEndian hm hn]
  exact decided_of_length_eq (by simp)

end Chronicle.Bytes
