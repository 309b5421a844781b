/-!
# Decimal integers in text

An integer is written as decimal digits after an optional sign, without blanks
or separators. A minus sign is accepted only where negative numbers are.
-/

namespace Chronicle.Text

/-- The number that a nonempty list of digits stands for. -/
def digits? (text : List Char) : Option Nat :=
  if text.isEmpty || !text.all Char.isDigit then none
  else some (text.foldl (fun n c => n * 10 + (c.toNat - 48)) 0)

/-- The natural number that a text spells. -/
def natural? (text : String) : Option Nat :=
  match text.toList with
  | '+' :: rest => digits? rest
  | rest => digits? rest

/-- The integer that a text spells. -/
def integer? (text : String) : Option Int :=
  match text.toList with
  | '-' :: rest => (digits? rest).map fun n => -(n : Int)
  | _ => (natural? text).map Int.ofNat

end Chronicle.Text
