import Chronicle.SortedMap
import Chronicle.Decimal.Layout
import Chronicle.Text.Hex

/-!
# JSON values and their compact text

A JSON value keeps integers apart from floats. Its compact text has no blanks,
lists the members of an object as given, escapes only what must be escaped,
and writes a float with the fewest digits that read back.
-/

namespace Chronicle

/-- A JSON value. -/
inductive Json where
  /-- The null literal. -/
  | null
  /-- A truth value. -/
  | bool (b : Bool)
  /-- A number written without fraction and exponent. -/
  | integer (n : Int)
  /-- Any other number. -/
  | float (x : Float64)
  /-- A text. -/
  | string (s : String)
  /-- A sequence of values. -/
  | array (elements : List Json)
  /-- Named values, in the order in which they are written. -/
  | object (members : List (String × Json))
  deriving Inhabited, Repr

namespace Json

/-- An object whose members are sorted by name. Of several members of one name
the last stays. -/
def sorted (members : List (String × Json)) : Json :=
  .object (SortedMap.ofList members).entries

/-- Numbers from `1e-5` up to sixteen digits are written positionally, whole
ones with a zero after the point. -/
def floatStyle : Decimal.Style := ⟨.toEven, fun point => -5 < point ∧ point ≤ 16, ".0"⟩

/-- The text of a float. JSON has none for infinities and NaN. -/
def floatText (x : Float64) : String :=
  if x.isFinite then floatStyle.finiteText x else "null"

/-- A character inside a quoted text. -/
def escape (c : Char) : List Char :=
  if c = '"' then ['\\', '"']
  else if c = '\\' then ['\\', '\\']
  else if c = '\n' then ['\\', 'n']
  else if c = '\r' then ['\\', 'r']
  else if c = '\t' then ['\\', 't']
  else if c.toNat = 8 then ['\\', 'b']
  else if c.toNat = 12 then ['\\', 'f']
  else if c.toNat < 32 then
    ['\\', 'u', '0', '0', Text.Hex.digit (c.toNat / 16), Text.Hex.digit (c.toNat % 16)]
  else [c]

/-- A text in quotes. -/
def quote (s : String) : List Char := '"' :: s.toList.flatMap escape ++ ['"']

mutual

/-- The characters of the compact text. -/
def chars : Json → List Char
  | .null => ['n', 'u', 'l', 'l']
  | .bool true => ['t', 'r', 'u', 'e']
  | .bool false => ['f', 'a', 'l', 's', 'e']
  | .integer n => (toString n).toList
  | .float x => (floatText x).toList
  | .string s => quote s
  | .array [] => ['[', ']']
  | .array (first :: rest) => '[' :: (chars first ++ elementChars rest)
  | .object [] => ['\x7b', '\x7d']
  | .object (first :: rest) => '\x7b' :: (memberChars first ++ moreMemberChars rest)

/-- The characters of the elements after the first, and the closing bracket. -/
def elementChars : List Json → List Char
  | [] => [']']
  | j :: rest => ',' :: (chars j ++ elementChars rest)

/-- The characters of one member. -/
def memberChars : String × Json → List Char
  | (name, j) => quote name ++ ':' :: chars j

/-- The characters of the members after the first, and the closing brace. -/
def moreMemberChars : List (String × Json) → List Char
  | [] => ['\x7d']
  | m :: rest => ',' :: (memberChars m ++ moreMemberChars rest)

end

/-- The compact text. -/
def text (j : Json) : String := String.ofList j.chars

end Json
end Chronicle
