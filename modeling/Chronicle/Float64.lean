/-!
# Floating-point numbers by their bits

A 64-bit float is the 64 bits of its IEEE 754 representation, so that two
floats are equal exactly when their bits are. The order is the total order of
the standard: negative before positive, NaN outermost.
-/

namespace Chronicle

/-- A binary floating-point number of 64 bits. -/
structure Float64 where
  /-- Sign, exponent and fraction, from the most significant bit. -/
  bits : UInt64
  deriving DecidableEq, Repr, Inhabited

namespace Float64

/-- Positive zero. -/
def zero : Float64 := ⟨0⟩

/-- The weight of the sign bit. -/
def signBit : Nat := 0x8000000000000000

/-- The weight of the lowest bit of the exponent, above those of the fraction. -/
def exponentUnit : Nat := 0x10000000000000

/-- Whether the sign bit is set. -/
def isNegative (x : Float64) : Bool := signBit ≤ x.bits.toNat

/-- The biased exponent, below 2048. -/
def exponentBits (x : Float64) : Nat := x.bits.toNat / exponentUnit % 2048

/-- The fraction, below one unit of the exponent. -/
def fractionBits (x : Float64) : Nat := x.bits.toNat % exponentUnit

/-- Whether the number is neither an infinity nor NaN. -/
def isFinite (x : Float64) : Bool := x.exponentBits != 2047

/-- Whether the bits stand for no number. -/
def isNaN (x : Float64) : Bool := !x.isFinite && x.fractionBits != 0

/-- The place of the number in the total order. Inverting all
bits of a negative number puts the larger magnitude first. Setting the sign
bit of any other number puts it after them. -/
def orderKey (x : Float64) : Nat :=
  if x.isNegative then UInt64.size - 1 - x.bits.toNat else signBit + x.bits.toNat

/-- No two floats have the same place in the order. -/
theorem orderKey_inj {x y : Float64} : x.orderKey = y.orderKey ↔ x = y := by
  refine ⟨fun h => ?_, fun h => h ▸ rfl⟩
  obtain ⟨a⟩ := x
  obtain ⟨b⟩ := y
  have ha := a.toNat_lt
  have hb := b.toNat_lt
  simp only [orderKey, isNegative, decide_eq_true_eq] at h
  rw [Float64.mk.injEq, ← UInt64.toNat_inj]
  have hs : signBit = 9223372036854775808 := rfl
  have hz : UInt64.size = 18446744073709551616 := rfl
  split at h <;> split at h <;> omega

theorem orderKey_lt (x : Float64) : x.orderKey < UInt64.size := by
  have := x.bits.toNat_lt
  simp only [orderKey, isNegative, decide_eq_true_eq]
  have hs : signBit = 9223372036854775808 := rfl
  have hz : UInt64.size = 18446744073709551616 := rfl
  split <;> omega

/-- The bits of a machine float. -/
def ofFloat (x : Float) : Float64 := ⟨x.toBits⟩

/-- The float nearest to an integer, ties to even. -/
def ofInt (n : Int) : Float64 := ofFloat (Float.ofInt n)

/-- The integers `m` and `q` of a finite number of magnitude `m * 2 ^ q`. -/
def significand (x : Float64) : Nat × Int :=
  if x.exponentBits = 0 then (x.fractionBits, -1074)
  else (exponentUnit + x.fractionBits, (x.exponentBits : Int) - 1075)

end Float64
end Chronicle
