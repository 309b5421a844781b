import Chronicle.Json.Decode

/-!
# Key expressions

An expression coarsens a field before an index orders by it. This module holds
the choices and how they are written.
-/

namespace Chronicle

/-- What an index may do to a field before ordering by it. -/
inductive Expression where
  /-- Take the lowercase form of a text. -/
  | lowercase
  /-- Take the first characters of a text, or the first bytes of a byte
  string. -/
  | truncate (count : Nat)
  /-- Divide an integer, rounding down. -/
  | bucket (divisor : Nat)
  deriving DecidableEq, Repr

namespace Expression

/-- How messages name an expression. -/
def describe : Expression → String
  | lowercase => "Lowercase"
  | truncate n => "Truncate(" ++ toString n ++ ")"
  | bucket n => "Bucket(" ++ toString n ++ ")"

/-- The JSON form. -/
def toJson : Expression → Json
  | lowercase => .string "lowercase"
  | truncate n => .object [("truncate", .integer n)]
  | bucket n => .object [("bucket", .integer n)]

/-- The expression that a document stands for. Counts and divisors fit 64
bits. -/
def ofDocument? (d : Json.Document) : Option Expression :=
  if d.caseName? = some "lowercase" then some .lowercase
  else match d.case? with
    | some ("truncate", some n) => (n.natural? UInt64.size).map .truncate
    | some ("bucket", some n) => (n.natural? UInt64.size).map .bucket
    | _ => none

end Expression
end Chronicle
