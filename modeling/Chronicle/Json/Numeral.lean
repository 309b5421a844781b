import Chronicle.Json.Basic

/-!
# Numerals

A numeral is kept as the digits that were written and has a value only on
demand. Without fraction and exponent it stands for an integer if that fits 64
bits. Any other numeral stands for a float, which is computed from the leading
digits that fit 64 bits by one multiplication or division by a power of ten.
-/

namespace Chronicle.Json

/-- A number as it is written. -/
structure Numeral where
  /-- Whether a minus sign was written. -/
  negative : Bool
  /-- The digits before the point. -/
  whole : List Nat
  /-- The digits after the point, none if there was no point. -/
  fraction : List Nat
  /-- The written exponent. -/
  exponent : Option Int
  deriving DecidableEq, Repr

namespace Numeral

/-- The longest run of digits at the start of a text, and what follows. -/
def digitRun : List Char → List Nat × List Char
  | [] => ([], [])
  | c :: rest =>
    if c.isDigit then
      let (digits, after) := digitRun rest
      ((c.toNat - 48) :: digits, after)
    else ([], c :: rest)

/-- The number that a list of digits stands for. -/
def number (digits : List Nat) : Nat := digits.foldl (fun n d => n * 10 + d) 0

/-- The digits after a decimal point, if one is written. -/
def fractionOf : List Char → Option (List Nat × List Char)
  | '.' :: rest =>
    match digitRun rest with
    | ([], _) => none
    | (digits, after) => some (digits, after)
  | rest => some ([], rest)

/-- The exponent, if one is written. -/
def exponentOf : List Char → Option (Option Int × List Char)
  | [] => some (none, [])
  | mark :: rest =>
    if mark = 'e' ∨ mark = 'E' then
      let (sign, unsigned) : Int × List Char := match rest with
        | '-' :: after => (-1, after)
        | '+' :: after => (1, after)
        | after => (1, after)
      match digitRun unsigned with
      | ([], _) => none
      | (digits, after) => some (some (sign * number digits), after)
    else some (none, mark :: rest)

/-- The numeral that a whole text spells. A leading zero stands alone. -/
def ofChars? (text : List Char) : Option Numeral := do
  let (negative, unsigned) := match text with
    | '-' :: rest => (true, rest)
    | rest => (false, rest)
  let (whole, afterWhole) := digitRun unsigned
  if whole.isEmpty || (whole.head? == some 0 && 1 < whole.length) then none
  let (fraction, afterFraction) ← fractionOf afterWhole
  let (exponent, rest) ← exponentOf afterFraction
  if rest.isEmpty then some ⟨negative, whole, fraction, exponent⟩ else none

/-- Append digits to a significand while it fits 64 bits. The result also
counts the digits left over. -/
def extend : Nat → List Nat → Nat × Nat
  | s, [] => (s, 0)
  | s, d :: rest =>
    if s * 10 + d < UInt64.size then extend (s * 10 + d) rest else (s, rest.length + 1)

/-- A power of ten as a float. -/
def powerOfTen (e : Nat) : Float := Float.ofScientific 1 false e

/-- A float times a power of ten, none if it exceeds every float. Powers down
to `1e-308` are applied in one step, smaller ones in several. -/
def scale (f : Float) (e : Int) : Option Float :=
  if h : e.natAbs ≤ 308 then
    if 0 ≤ e then
      let product := f * powerOfTen e.natAbs
      if product.isInf then none else some product
    else some (f / powerOfTen e.natAbs)
  else if f == 0 then some f
  else if 0 ≤ e then none
  else scale (f / powerOfTen 308) (e + 308)
termination_by e.natAbs
decreasing_by omega

/-- The largest exponent that is not out of range by itself. -/
def maxExponent : Int := 2147483647

/-- The float with a sign and magnitude. -/
def signed (negative : Bool) (f : Float) : Json :=
  .float (Float64.ofFloat (if negative then -f else f))

/-- The value of a numeral, none if it exceeds every float. -/
def value? (n : Numeral) : Option Json :=
  let (wholeSignificand, dropped) := extend 0 n.whole
  if n.fraction.isEmpty && n.exponent.isNone && dropped == 0 then
    if !n.negative then some (.integer wholeSignificand)
    else if 0 < wholeSignificand ∧ Int64.minValue.toInt ≤ -wholeSignificand then
      some (.integer (-wholeSignificand))
    else some (signed true (Float.ofNat wholeSignificand))
  else
    let (significand, ignored) := extend wholeSignificand n.fraction
    let written := n.exponent.getD 0
    if written < -maxExponent then some (signed n.negative 0)
    else if maxExponent < written then
      if significand = 0 then some (signed n.negative 0) else none
    else
      let exponent : Int := dropped - (n.fraction.length - ignored : Nat) + written
      (scale (Float.ofNat significand) exponent).map (signed n.negative)

end Numeral
end Chronicle.Json
