import Chronicle.Comparator

/-!
# Storage keys

Tuples are stored under byte strings whose order is that of the tuples. Each
value starts with a byte for its type and is written so that no encoding is a
proper prefix of another, which makes fields comparable one after the other.
A descending field has its bytes complemented.

A version of a fact is stored under the key of its identity and a suffix with
the complemented block, so the newest version of an identity comes first.
-/

namespace Chronicle.Key

/-- Bytes with every zero byte marked and a mark at the end, so that no
escaped string is a proper prefix of another. -/
def escape : Bytes → Bytes
  | [] => [0x00, 0x01]
  | b :: rest => if b = 0 then 0x00 :: 0xFF :: escape rest else b :: escape rest

/-- The byte before the values of a type. -/
def typeByte (t : ScalarType) : UInt8 := UInt8.ofNat (t.rank + 1)

/-- The bytes of a value after its type. Signed integers are shifted to start
at zero. -/
def body : Value → Bytes
  | .bool b => [if b then 1 else 0]
  | .int32 n => Bytes.bigEndian 4 (n.toInt - Int32.minValue.toInt).toNat
  | .int64 n => Bytes.bigEndian 8 (n.toInt - Int64.minValue.toInt).toNat
  | .uint32 n => Bytes.bigEndian 4 n.toNat
  | .uint64 n => Bytes.bigEndian 8 n.toNat
  | .float64 x => Bytes.bigEndian 8 x.orderKey
  | .string s => escape (Bytes.ofText s)
  | .bytes b => escape b
  | .checksum256 c => c.bytes
  | .timestamp n => Bytes.bigEndian 8 (n.toInt - Int64.minValue.toInt).toNat

/-- The bytes of a value in ascending order. -/
def ofValue (v : Value) : Bytes := typeByte v.type :: body v

/-- The bytes of a value in a direction. -/
def ofField (direction : Direction) (v : Value) : Bytes :=
  match direction with
  | .asc => ofValue v
  | .desc => Bytes.complement (ofValue v)

/-- The key of a tuple. Fields without a direction ascend. -/
def ofTuple : List Direction → Tuple → Bytes
  | _, [] => []
  | directions, v :: rest => ofField (directions.headD .asc) v ++ ofTuple directions.tail rest

/-- The key of an identity, all fields ascending. -/
def ofIdentity (identity : Tuple) : Bytes := ofTuple [] identity

/-- The length of a version suffix. -/
def suffixLength : Nat := 9

/-- The end of a version's key. Newer blocks come first, and of one block a
live version comes before a retraction. -/
def versionSuffix (block : UInt64) (present : Bool) : Bytes :=
  Bytes.bigEndian 8 (UInt64.size - 1 - block.toNat) ++ [if present then 0x00 else 0x01]

/-- The key of a version of an identity with the given key. -/
def ofVersion (identity : Bytes) (block : UInt64) (present : Bool) : Bytes :=
  identity ++ versionSuffix block present

/-- The first key of a version not newer than a block. -/
def snapshotStart (identity : Bytes) (block : UInt64) : Bytes := ofVersion identity block true

/-- A key after all versions of an identity. -/
def identityEnd (identity : Bytes) : Bytes := identity ++ List.replicate suffixLength 0xFF

/-- The key without its version suffix. -/
def identityPart (key : Bytes) : Bytes := key.take (key.length - suffixLength)

/-- The block of a version's key, and whether the version is live. -/
def version? (key : Bytes) : Option (UInt64 × Bool) :=
  if key.length < suffixLength then none
  else
    let suffix := key.drop (key.length - suffixLength)
    let block := UInt64.ofNat (UInt64.size - 1 - Bytes.toNat (suffix.take 8))
    match suffix.drop 8 with
    | [0x00] => some (block, true)
    | [0x01] => some (block, false)
    | _ => none

end Chronicle.Key
