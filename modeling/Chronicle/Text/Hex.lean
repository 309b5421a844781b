import Chronicle.Bytes

/-!
# Hexadecimal text

Two digits per byte, the high half first. Writing uses small letters, reading
takes letters of either case, and reading what was written gives the bytes
back.
-/

namespace Chronicle.Text.Hex

/-- The digit of a value below sixteen. -/
def digit (n : Nat) : Char :=
  if n < 10 then Char.ofNat (48 + n) else Char.ofNat (87 + n)

/-- The value of a hexadecimal digit. -/
def digitValue (c : Char) : Option Nat :=
  if '0' ≤ c ∧ c ≤ '9' then some (c.toNat - 48)
  else if 'a' ≤ c ∧ c ≤ 'f' then some (c.toNat - 87)
  else if 'A' ≤ c ∧ c ≤ 'F' then some (c.toNat - 55)
  else none

theorem digitValue_digit {n : Nat} (h : n < 16) : digitValue (digit n) = some n := by
  have all : ∀ m : Fin 16, digitValue (digit m) = some m.val := by decide
  exact all ⟨n, h⟩

/-- The digits of a byte string. -/
def digits (b : Bytes) : List Char :=
  b.flatMap fun byte => [digit (byte.toNat / 16), digit (byte.toNat % 16)]

/-- The text of a byte string. -/
def encode (b : Bytes) : String := String.ofList (digits b)

/-- The bytes that a list of digits stands for, if all are digits and their
number is even. -/
def bytes? : List Char → Option Bytes
  | [] => some []
  | [_] => none
  | high :: low :: rest => do
    let h ← digitValue high
    let l ← digitValue low
    let tail ← bytes? rest
    return UInt8.ofNat (16 * h + l) :: tail

/-- The bytes that a text stands for. -/
def decode (text : String) : Option Bytes := bytes? text.toList

theorem bytes?_digits (b : Bytes) : bytes? (digits b) = some b := by
  induction b with
  | nil => rfl
  | cons byte rest ih =>
    have hlt := byte.toNat_lt
    have hh := digitValue_digit (n := byte.toNat / 16) (by omega)
    have hl := digitValue_digit (n := byte.toNat % 16) (by omega)
    have hb : UInt8.ofNat (16 * (byte.toNat / 16) + byte.toNat % 16) = byte := by
      rw [Nat.div_add_mod, UInt8.ofNat_toNat]
    rw [digits] at ih
    simp only [digits, List.flatMap_cons, List.cons_append, List.nil_append, bytes?, hh, hl, ih,
      Option.bind_eq_bind, Option.bind_some, hb, pure]

/-- Written bytes read back. -/
theorem decode_encode (b : Bytes) : decode (encode b) = some b := by
  simp [decode, encode, bytes?_digits]

end Chronicle.Text.Hex
