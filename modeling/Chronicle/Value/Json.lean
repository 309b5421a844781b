import Chronicle.Json.Decode
import Chronicle.Text.Integer
import Chronicle.Value.Basic

/-!
# Values in JSON

A value has two forms in JSON. The plain form drops the type: binary values
become hexadecimal text, and infinities and NaN become null, so it is read
back with a type at hand. The tagged form names the type.
-/

namespace Chronicle

namespace Value

/-- The plain form of a value. -/
def toJson : Value → Json
  | bool b => .bool b
  | int32 n => .integer n.toInt
  | int64 n => .integer n.toInt
  | uint32 n => .integer n.toNat
  | uint64 n => .integer n.toNat
  | float64 x => if x.isFinite then .float x else .null
  | string s => .string s
  | bytes b => .string (Text.Hex.encode b)
  | checksum256 c => .string (Text.Hex.encode c.bytes)
  | timestamp n => .integer n.toInt

/-- The name of a value's type in the tagged form. -/
def tag : ScalarType → String
  | .bool => "Bool"
  | .int32 => "Int32"
  | .int64 => "Int64"
  | .uint32 => "UInt32"
  | .uint64 => "UInt64"
  | .float64 => "Float64"
  | .string => "String"
  | .bytes => "Bytes"
  | .checksum256 => "Checksum256"
  | .timestamp => "Timestamp"

/-- A byte string as a list of numbers. -/
def byteNumbers (b : Bytes) : Json := .array (b.map fun byte => .integer byte.toNat)

/-- The content of the tagged form. -/
def untagged : Value → Json
  | bool b => .bool b
  | int32 n => .integer n.toInt
  | int64 n => .integer n.toInt
  | uint32 n => .integer n.toNat
  | uint64 n => .integer n.toNat
  | float64 x => .float x
  | string s => .string s
  | bytes b => byteNumbers b
  | checksum256 c => byteNumbers c.bytes
  | timestamp n => .integer n.toInt

/-- The tagged form of a value. -/
def toTagged (v : Value) : Json := .object [(tag v.type, v.untagged)]

/-- A signed integer of 32 bits. -/
def int32? (d : Json.Document) : Option Int32 :=
  (d.integer? Int32.minValue.toInt Int32.maxValue.toInt).map Int32.ofInt

/-- A signed integer of 64 bits. -/
def int64? (d : Json.Document) : Option Int64 :=
  (d.integer? Int64.minValue.toInt Int64.maxValue.toInt).map Int64.ofInt

/-- An unsigned integer of 32 bits. -/
def uint32? (d : Json.Document) : Option UInt32 := (d.natural? UInt32.size).map UInt32.ofNat

/-- An unsigned integer of 64 bits. -/
def uint64? (d : Json.Document) : Option UInt64 := (d.natural? UInt64.size).map UInt64.ofNat

/-- A list of numbers as a byte string. -/
def bytes? (d : Json.Document) : Option Bytes :=
  d.list? fun byte => (byte.natural? 256).map UInt8.ofNat

/-- The value of a type that a document holds. -/
def ofContent? (t : ScalarType) (d : Json.Document) : Option Value :=
  match t with
  | .bool => d.bool?.map .bool
  | .int32 => (int32? d).map .int32
  | .int64 => (int64? d).map .int64
  | .uint32 => (uint32? d).map .uint32
  | .uint64 => (uint64? d).map .uint64
  | .float64 => d.float?.map .float64
  | .string => d.string?.map .string
  | .bytes => (bytes? d).map .bytes
  | .checksum256 => ((bytes? d).bind Checksum.ofBytes?).map .checksum256
  | .timestamp => (int64? d).map .timestamp

/-- The value of a tagged form. -/
def ofDocument? (d : Json.Document) : Option Value :=
  match d.case? with
  | some (name, some content) =>
    (ScalarType.all.find? fun t => tag t == name).bind (ofContent? · content)
  | _ => none

end Value

namespace Tuple

/-- The tagged form of a tuple. -/
def toTagged (t : Tuple) : Json := .array (t.map Value.toTagged)

/-- The plain form of a tuple. -/
def toJson (t : Tuple) : Json := .array (t.map Value.toJson)

/-- The tuple of a tagged form. -/
def ofDocument? (d : Json.Document) : Option Tuple := d.list? Value.ofDocument?

end Tuple

namespace ScalarType

/-- The integer of a JSON number without fraction, or of a text that spells
one. -/
def integerOf? (spelled : String → Option Int) : Json → Option Int
  | .integer n => some n
  | .string s => spelled s
  | _ => none

/-- The integer, if it lies in a range. -/
def within (low high : Int) (n : Option Int) : Option Int :=
  n.filter fun n => low ≤ n ∧ n ≤ high

/-- The value of a type that a plain form stands for. Integers may be spelled
as text, binary values are hexadecimal text, and a float may be any number. -/
def ofJson? (t : ScalarType) (j : Json) : Option Value :=
  match t, j with
  | .bool, .bool b => some (.bool b)
  | .int32, j =>
    (within Int32.minValue.toInt Int32.maxValue.toInt (integerOf? Text.integer? j)).map
      (.int32 <| Int32.ofInt ·)
  | .int64, j => (signed64? j).map .int64
  | .uint32, j =>
    (within 0 (UInt32.size - 1) (integerOf? spelledNatural j)).map (.uint32 <| UInt32.ofNat ·.toNat)
  | .uint64, j =>
    (within 0 (UInt64.size - 1) (integerOf? spelledNatural j)).map (.uint64 <| UInt64.ofNat ·.toNat)
  | .float64, .float x => some (.float64 x)
  | .float64, .integer n => some (.float64 (Float64.ofInt n))
  | .string, .string s => some (.string s)
  | .bytes, .string s => (Text.Hex.decode s).map .bytes
  | .checksum256, .string s => ((Text.Hex.decode s).bind Checksum.ofBytes?).map .checksum256
  | .timestamp, j => (signed64? j).map .timestamp
  | _, _ => none
where
  /-- A signed integer of 64 bits. -/
  signed64? (j : Json) : Option Int64 :=
    (within Int64.minValue.toInt Int64.maxValue.toInt (integerOf? Text.integer? j)).map Int64.ofInt
  /-- Unsigned types take no minus sign, not even before zero. -/
  spelledNatural (s : String) : Option Int := (Text.natural? s).map Int.ofNat

/-- The type that a document names. -/
def ofDocument? (d : Json.Document) : Option ScalarType := d.caseName?.bind ofName?

/-- The name of a type in JSON. -/
def toJson (t : ScalarType) : Json := .string t.name

end ScalarType
end Chronicle
