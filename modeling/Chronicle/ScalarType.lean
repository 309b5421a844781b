/-!
# Scalar types

The ten types a field of a fact can have, with the names that schemas use.
-/

namespace Chronicle

/-- The type of a field. -/
inductive ScalarType where
  /-- A truth value. -/
  | bool
  /-- A signed integer of 32 bits. -/
  | int32
  /-- A signed integer of 64 bits. -/
  | int64
  /-- An unsigned integer of 32 bits. -/
  | uint32
  /-- An unsigned integer of 64 bits. -/
  | uint64
  /-- A float of 64 bits. -/
  | float64
  /-- A text. -/
  | string
  /-- A byte string. -/
  | bytes
  /-- An identifier of 32 bytes. -/
  | checksum256
  /-- A time in microseconds since the epoch. -/
  | timestamp
  deriving DecidableEq, Repr, Inhabited

namespace ScalarType

/-- All types, in the order in which values of different types compare. -/
def all : List ScalarType :=
  [bool, int32, int64, uint32, uint64, float64, string, bytes, checksum256, timestamp]

/-- The name of a type in schemas and messages. -/
def name : ScalarType → String
  | bool => "bool"
  | int32 => "int32"
  | int64 => "int64"
  | uint32 => "uint32"
  | uint64 => "uint64"
  | float64 => "float64"
  | string => "string"
  | bytes => "bytes"
  | checksum256 => "checksum256"
  | timestamp => "timestamp"

/-- The type of a name. -/
def ofName? (name : String) : Option ScalarType := all.find? (·.name == name)

/-- The position of a type among all types. -/
def rank : ScalarType → Nat
  | bool => 0
  | int32 => 1
  | int64 => 2
  | uint32 => 3
  | uint64 => 4
  | float64 => 5
  | string => 6
  | bytes => 7
  | checksum256 => 8
  | timestamp => 9

theorem rank_inj {s t : ScalarType} : s.rank = t.rank ↔ s = t := by
  cases s <;> cases t <;> decide

/-- Whether values of the type are integers. -/
def isInteger : ScalarType → Bool
  | int32 | int64 | uint32 | uint64 | timestamp => true
  | _ => false

end ScalarType
end Chronicle
