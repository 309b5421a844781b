import Chronicle.Bytes
import Chronicle.Decimal.Layout
import Chronicle.ScalarType
import Chronicle.Text.Hex

/-!
# Values

A value belongs to one of the scalar types. Values are totally ordered: first
by type, then by number, then by bytes. Floats follow the total order of their
bits and texts that of their UTF-8 bytes, so only equal values compare as
equal.
-/

namespace Chronicle

/-- An identifier of 32 bytes. -/
structure Checksum where
  /-- The bytes. -/
  bytes : Bytes
  /-- There are 32 of them. -/
  length_eq : bytes.length = 32
  deriving DecidableEq, Repr

/-- The identifier of 32 zero bytes. -/
def Checksum.zero : Checksum := ⟨List.replicate 32 0, by simp⟩

/-- The identifier of the given bytes, if there are 32. -/
def Checksum.ofBytes? (b : Bytes) : Option Checksum :=
  if h : b.length = 32 then some ⟨b, h⟩ else none

/-- A typed value of a field, a bound or a result. -/
inductive Value where
  /-- A truth value. -/
  | bool (b : Bool)
  /-- A signed integer of 32 bits. -/
  | int32 (n : Int32)
  /-- A signed integer of 64 bits. -/
  | int64 (n : Int64)
  /-- An unsigned integer of 32 bits. -/
  | uint32 (n : UInt32)
  /-- An unsigned integer of 64 bits. -/
  | uint64 (n : UInt64)
  /-- A float. -/
  | float64 (x : Float64)
  /-- A text. -/
  | string (s : String)
  /-- A byte string. -/
  | bytes (b : Bytes)
  /-- An identifier of 32 bytes. -/
  | checksum256 (c : Checksum)
  /-- A time in microseconds since the epoch. -/
  | timestamp (n : Int64)
  deriving DecidableEq, Repr

/-- The values of several fields in a fixed order. -/
abbrev Tuple := List Value

instance : Inhabited Value := ⟨.bool false⟩

instance : Coe Bool Value := ⟨.bool⟩
instance : Coe Int32 Value := ⟨.int32⟩
instance : Coe Int64 Value := ⟨.int64⟩
instance : Coe UInt32 Value := ⟨.uint32⟩
instance : Coe UInt64 Value := ⟨.uint64⟩
instance : Coe Float64 Value := ⟨.float64⟩
instance : Coe String Value := ⟨.string⟩
instance : Coe Bytes Value := ⟨.bytes⟩
instance : Coe Checksum Value := ⟨.checksum256⟩

namespace Value

/-- The type of a value. -/
def type : Value → ScalarType
  | bool _ => .bool
  | int32 _ => .int32
  | int64 _ => .int64
  | uint32 _ => .uint32
  | uint64 _ => .uint64
  | float64 _ => .float64
  | string _ => .string
  | bytes _ => .bytes
  | checksum256 _ => .checksum256
  | timestamp _ => .timestamp

/-- The number that orders values of one type, zero for types ordered by
bytes. -/
def number : Value → Int
  | bool b => b.toNat
  | int32 n => n.toInt
  | int64 n => n.toInt
  | uint32 n => n.toNat
  | uint64 n => n.toNat
  | float64 x => x.orderKey
  | string _ => 0
  | bytes _ => 0
  | checksum256 _ => 0
  | timestamp n => n.toInt

/-- The bytes that order values of one type, none for types ordered by
number. -/
def content : Value → Bytes
  | string s => Bytes.ofText s
  | bytes b => b
  | checksum256 c => c.bytes
  | _ => []

instance : Ord Value :=
  ⟨compareLex (compareOn fun v : Value => v.type.rank)
    (compareLex (compareOn number) (compareOn content))⟩

instance : Std.TransOrd Value :=
  inferInstanceAs (Std.TransCmp (compareLex (compareOn fun v : Value => v.type.rank)
    (compareLex (compareOn number) (compareOn content))))

/-- A value is determined by its type, number and bytes. -/
theorem ext_of_order_keys {v w : Value} (ht : v.type = w.type) (hn : v.number = w.number)
    (hc : v.content = w.content) : v = w := by
  cases v <;> cases w <;> simp only [type, reduceCtorEq] at ht <;> congr <;>
    simp only [number, content] at hn hc
  case bool.bool a b => cases a <;> cases b <;> simp at hn ⊢
  case int32.int32 => exact Int32.toInt_inj.mp hn
  case int64.int64 => exact Int64.toInt_inj.mp hn
  case uint32.uint32 => exact UInt32.toNat_inj.mp (Int.ofNat_inj.mp hn)
  case uint64.uint64 => exact UInt64.toNat_inj.mp (Int.ofNat_inj.mp hn)
  case float64.float64 => exact Float64.orderKey_inj.mp (Int.ofNat_inj.mp hn)
  case string.string => exact Bytes.ofText_inj.mp hc
  case checksum256.checksum256 a b =>
    cases a; cases b; simp only at hc; subst hc; rfl
  case timestamp.timestamp => exact Int64.toInt_inj.mp hn

instance : Std.LawfulEqOrd Value where
  eq_of_compare {v w} h := by
    obtain ⟨ht, h⟩ := Ordering.then_eq_eq.mp h
    obtain ⟨hn, hc⟩ := Ordering.then_eq_eq.mp h
    exact ext_of_order_keys (ScalarType.rank_inj.mp (Std.LawfulEqOrd.eq_of_compare ht))
      (Std.LawfulEqOrd.eq_of_compare hn) (Std.LawfulEqOrd.eq_of_compare hc)

/-- The truth value, if it is one. -/
def toBool? : Value → Option Bool
  | bool b => some b
  | _ => none

/-- The unsigned integer, if it is one. -/
def toUInt64? : Value → Option UInt64
  | uint64 n => some n
  | uint32 n => some n.toUInt64
  | _ => none

/-- The signed integer or time, if it is one. -/
def toInt64? : Value → Option Int64
  | int64 n => some n
  | timestamp n => some n
  | int32 n => some n.toInt64
  | _ => none

/-- The float, if it is one. -/
def toFloat64? : Value → Option Float64
  | float64 x => some x
  | _ => none

/-- The text, if it is one. -/
def toText? : Value → Option String
  | string s => some s
  | _ => none

/-- The bytes of a byte string or identifier. -/
def toBytes? : Value → Option Bytes
  | bytes b => some b
  | checksum256 c => some c.bytes
  | _ => none

/-- The text of a value on a display. Binary values are shown in hexadecimal. -/
def display : Value → String
  | bool b => if b then "true" else "false"
  | int32 n => toString n.toInt
  | int64 n => toString n.toInt
  | uint32 n => toString n.toNat
  | uint64 n => toString n.toNat
  | float64 x => Decimal.display x
  | string s => s
  | bytes b => Text.Hex.encode b
  | checksum256 c => Text.Hex.encode c.bytes
  | timestamp n => toString n.toInt

end Value

namespace ScalarType

/-- Whether a value has the type. -/
def admits (t : ScalarType) (v : Value) : Bool := v.type == t

/-- The value of a field that nobody has set. -/
def default : ScalarType → Value
  | bool => .bool false
  | int32 => .int32 0
  | int64 => .int64 0
  | uint32 => .uint32 0
  | uint64 => .uint64 0
  | float64 => .float64 .zero
  | string => .string ""
  | bytes => .bytes []
  | checksum256 => .checksum256 .zero
  | timestamp => .timestamp 0

theorem admits_default (t : ScalarType) : t.admits t.default = true := by
  cases t <;> rfl

end ScalarType
end Chronicle
