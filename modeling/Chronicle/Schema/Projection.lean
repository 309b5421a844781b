import Chronicle.Error
import Chronicle.Text.Lowercase
import Chronicle.Value.Basic

/-!
# Projections

What a key expression does to a value. It keeps the type of the value, and a
checked expression is defined on every value of the type it was checked for.
-/

namespace Chronicle.Expression

/-- The type of the projected values, for values of a type. -/
def outputType (e : Expression) (input : ScalarType) : Except Error ScalarType :=
  let applies : Bool := match e with
    | lowercase => input = .string
    | truncate _ => input = .string ∨ input = .bytes
    | bucket n => 0 < n ∧ input.isInteger
  if applies then .ok input else .error (Flaw.expression e input)

/-- The quotient of an integer, rounded down. -/
def quotient (n : Int) (divisor : Nat) : Except Error Int :=
  if divisor = 0 then .error (.fault .divisionByZero) else .ok (n / divisor)

/-- The quotient of a signed integer of at most 64 bits, rounded down. A divisor
above them all is no such integer itself, and leaves two quotients. -/
def signedQuotient (n : Int) (divisor : Nat) : Except Error Int :=
  if (divisor : Int) ≤ Int64.maxValue.toInt then quotient n divisor
  else .ok (if n < 0 then -1 else 0)

/-- The projected value. -/
def apply (e : Expression) (v : Value) : Except Error Value :=
  match e, v with
  | lowercase, .string s => .ok (.string (Text.lowercase s))
  | truncate n, .string s => .ok (.string (String.ofList (s.toList.take n)))
  | truncate n, .bytes b => .ok (.bytes (b.take n))
  | bucket n, .uint64 v => (quotient v.toNat n).map fun q => .uint64 (UInt64.ofNat q.toNat)
  | bucket n, .uint32 v => (quotient v.toNat n).map fun q => .uint32 (UInt32.ofNat q.toNat)
  | bucket n, .int64 v => (signedQuotient v.toInt n).map fun q => .int64 (Int64.ofInt q)
  | bucket n, .timestamp v => (signedQuotient v.toInt n).map fun q => .timestamp (Int64.ofInt q)
  | bucket n, .int32 v => (signedQuotient v.toInt n).map fun q => .int32 (Int32.ofInt q)
  | e, v => .error (Violation.expression e v.type)

end Chronicle.Expression
