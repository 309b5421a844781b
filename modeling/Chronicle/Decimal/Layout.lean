import Chronicle.Decimal.Shortest

/-!
# Decimal text

How the digits of a number and the place of its decimal point become text. A
style says which numbers are written positionally, what follows a whole
number, and how ties between digits go. Other numbers are written with one
digit before the point and a signed exponent.
-/

namespace Chronicle.Decimal

/-- The choices of a float's text. -/
structure Style where
  /-- Which of two equally near decimals is written. -/
  tie : Tie
  /-- Whether a number whose decimal point follows this many digits is written
  without an exponent. -/
  positional : Int → Bool
  /-- What is written after a whole number without exponent. -/
  wholeSuffix : String

/-- Every number is written positionally and whole numbers have no point. -/
def Style.plain : Style := ⟨.away, fun _ => true, ""⟩

/-- Digits with the decimal point after the first `point` of them. -/
def positionalText (suffix : String) (digits : String) (point : Int) : String :=
  if point ≤ 0 then "0." ++ "".pushn '0' (-point).toNat ++ digits
  else if digits.length ≤ point then
    digits ++ "".pushn '0' (point.toNat - digits.length) ++ suffix
  else (digits.take point.toNat).copy ++ "." ++ (digits.drop point.toNat).copy

/-- Digits with the decimal point after the first, and the exponent that
moves it to its place. -/
def scientificText (digits : String) (point : Int) : String :=
  let exponent := point - 1
  let fraction := if digits.length ≤ 1 then "" else "." ++ (digits.drop 1).copy
  let sign := if exponent < 0 then "-" else "+"
  (digits.take 1).copy ++ fraction ++ "e" ++ sign ++ toString exponent.natAbs

/-- The text of a finite float. -/
def Style.finiteText (style : Style) (x : Float64) : String :=
  let sign := if x.isNegative then "-" else ""
  if x.exponentBits = 0 ∧ x.fractionBits = 0 then sign ++ "0" ++ style.wholeSuffix
  else
    let decimal := shortest style.tie x
    let digits := toString decimal.digits
    let point := digits.length + decimal.exponent
    sign ++ if style.positional point then positionalText style.wholeSuffix digits point
      else scientificText digits point

/-- The text of a float on a display. -/
def display (x : Float64) : String :=
  if x.isFinite then Style.plain.finiteText x
  else if x.isNaN then "NaN"
  else if x.isNegative then "-inf" else "inf"

end Chronicle.Decimal
