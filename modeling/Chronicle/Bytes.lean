/-!
# Byte strings

Byte strings are compared byte by byte, a proper prefix first. This module
holds the three ways in which keys are made of them: fixed-width numbers with
the most significant byte first, the bytes of a text, and the complement that
reverses an order.
-/

namespace Chronicle

/-- A string of bytes, ordered lexicographically. -/
abbrev Bytes := List UInt8

namespace Bytes

/-- The `width` lowest base-256 digits of a number, most significant first. -/
def bigEndian : (width : Nat) → Nat → Bytes
  | 0, _ => []
  | width + 1, n => bigEndian width (n / 256) ++ [UInt8.ofNat n]

@[simp] theorem length_bigEndian (width n : Nat) : (bigEndian width n).length = width := by
  induction width generalizing n with
  | zero => rfl
  | succ width ih => simp [bigEndian, ih]

/-- The number whose base-256 digits are the given bytes. -/
def toNat (b : Bytes) : Nat := b.foldl (fun n digit => n * 256 + digit.toNat) 0

theorem toNat_append_singleton (b : Bytes) (digit : UInt8) :
    toNat (b ++ [digit]) = toNat b * 256 + digit.toNat := by
  simp [toNat]

/-- Every byte with all its bits inverted, which reverses the order of byte
strings of equal length. -/
def complement (b : Bytes) : Bytes := b.map (~~~ ·)

@[simp] theorem complement_complement (b : Bytes) : complement (complement b) = b := by
  simp [complement, Function.comp_def]

/-- The bytes of a text in UTF-8. -/
def ofText (text : String) : Bytes := text.toByteArray.data.toList

/-- A text is determined by its bytes. -/
theorem ofText_inj {s t : String} : ofText s = ofText t ↔ s = t := by
  simp [ofText, ← String.toByteArray_inj, ByteArray.ext_iff]

end Bytes
end Chronicle
