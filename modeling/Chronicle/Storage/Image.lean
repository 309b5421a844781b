import Chronicle.Query.Request
import Chronicle.Query.Response
import Chronicle.Storage.Directory
import Chronicle.Storage.Key

/-!
# Byte images

Values are written as in storage keys, where each says by itself where it
ends, so a sequence of values is read back without a length. Records are
written as such sequences, with counts where a part could end in several
places. A directory has an image too, which keeps a database between runs.
-/

namespace Chronicle

namespace Key

/-- The bytes of an escaped string, and what follows its mark. -/
def unescape? : Bytes → Option (Bytes × Bytes)
  | [] => none
  | b :: rest =>
    if b = 0 then
      match rest with
      | 0x01 :: after => some ([], after)
      | 0xFF :: after => (unescape? after).map fun (read, left) => (0 :: read, left)
      | _ => none
    else (unescape? rest).map fun (read, left) => (b :: read, left)

/-- The number of a fixed width, and what follows. -/
def fixed? (width : Nat) (b : Bytes) : Option (Nat × Bytes) :=
  if b.length < width then none else some (Bytes.toNat (b.take width), b.drop width)

/-- The signed integer of a fixed width, whose place is counted from the
smallest one, and what follows. -/
def shifted? (width : Nat) (smallest : Int) (b : Bytes) : Option (Int × Bytes) :=
  (fixed? width b).map fun (n, rest) => (n + smallest, rest)

/-- The float with a place in the total order. -/
def floatOfOrder (key : Nat) : Float64 :=
  if Float64.signBit ≤ key then ⟨UInt64.ofNat (key - Float64.signBit)⟩
  else ⟨UInt64.ofNat (UInt64.size - 1 - key)⟩

/-- The value of a type at the start of some bytes, and what follows. -/
def body? (t : ScalarType) (b : Bytes) : Option (Value × Bytes) :=
  match t with
  | .bool =>
    match b with
    | 0x00 :: rest => some (.bool false, rest)
    | 0x01 :: rest => some (.bool true, rest)
    | _ => none
  | .int32 =>
    (shifted? 4 Int32.minValue.toInt b).map fun (n, rest) => (.int32 (Int32.ofInt n), rest)
  | .int64 =>
    (shifted? 8 Int64.minValue.toInt b).map fun (n, rest) => (.int64 (Int64.ofInt n), rest)
  | .uint32 => (fixed? 4 b).map fun (n, rest) => (.uint32 (UInt32.ofNat n), rest)
  | .uint64 => (fixed? 8 b).map fun (n, rest) => (.uint64 (UInt64.ofNat n), rest)
  | .float64 => (fixed? 8 b).map fun (n, rest) => (.float64 (floatOfOrder n), rest)
  | .string => do
    let (read, rest) ← unescape? b
    let text ← String.fromUTF8? ⟨read.toArray⟩
    return (.string text, rest)
  | .bytes => (unescape? b).map fun (read, rest) => (.bytes read, rest)
  | .checksum256 =>
    (Checksum.ofBytes? (b.take 32)).map fun c => (.checksum256 c, b.drop 32)
  | .timestamp =>
    (shifted? 8 Int64.minValue.toInt b).map fun (n, rest) => (.timestamp (Int64.ofInt n), rest)

/-- The value at the start of some bytes, and what follows. -/
def value? : Bytes → Option (Value × Bytes)
  | [] => none
  | b :: rest => (ScalarType.all.find? fun t => typeByte t == b).bind (body? · rest)

/-- The values of a sequence of at most so many. -/
def values? : (limit : Nat) → Bytes → Option Tuple
  | _, [] => some []
  | 0, _ :: _ => none
  | limit + 1, b => do
    let (v, rest) ← value? b
    return v :: (← values? limit rest)

end Key

namespace Image

/-- A reader of values, which may find what it does not expect. -/
abbrev Reader := StateT Tuple Option

/-- The next value. -/
def next : Reader Value := fun
  | [] => none
  | v :: rest => some (v, rest)

/-- The next value, which is an unsigned integer of 64 bits. -/
def nextWord : Reader UInt64 := do
  match ← next with
  | .uint64 n => return n
  | _ => failure

/-- The next value, which is an unsigned integer of 32 bits. -/
def nextHalf : Reader UInt32 := do
  match ← next with
  | .uint32 n => return n
  | _ => failure

/-- The next value, which is a truth value. -/
def nextBool : Reader Bool := do
  match ← next with
  | .bool b => return b
  | _ => failure

/-- The next value, which is a text. -/
def nextText : Reader String := do
  match ← next with
  | .string s => return s
  | _ => failure

/-- The next value, which is a byte string. -/
def nextBytes : Reader Bytes := do
  match ← next with
  | .bytes b => return b
  | _ => failure

/-- The next so many things. -/
def nextMany (read : Reader α) : Nat → Reader (List α)
  | 0 => return []
  | n + 1 => return (← read) :: (← nextMany read n)

/-- The next counted sequence. A count above what is left cannot be right. -/
def nextList (read : Reader α) : Reader (List α) := do
  let count ← nextWord
  if count.toNat ≤ (← get).length then nextMany read count.toNat else failure

/-- The next counted sequence of values. -/
def nextTuple : Reader Tuple := nextList next

/-- The number of things in a sequence, as a value. -/
def count (items : List α) : Value := .uint64 (UInt64.ofNat items.length)

/-- A counted sequence of values. -/
def tuple (t : Tuple) : Tuple := count t :: t

/-- A counted sequence of things. -/
def list (write : α → Tuple) (items : List α) : Tuple := count items :: items.flatMap write

/-- The bytes of a sequence of values. -/
def toBytes (t : Tuple) : Bytes := Key.ofIdentity t

/-- What a reader finds in some bytes, with nothing left over. -/
def ofBytes? (read : Reader α) (b : Bytes) : Option α := do
  let values ← Key.values? b.length b
  match ← read values with
  | (found, []) => some found
  | _ => none

/-- The failure to decode, where there is nothing. -/
def decoded (found : Option α) : Except Error α :=
  match found with
  | some a => .ok a
  | none => .error .undecodable

end Image

open Image

/-- The image of a stored fact. -/
def StoredFact.toBytes (f : StoredFact) : Bytes :=
  Image.toBytes (tuple f.identity ++ tuple f.payload)

/-- The stored fact of an image. -/
def StoredFact.ofBytes (b : Bytes) : Except Error StoredFact :=
  decoded <| ofBytes? (do return ⟨← nextTuple, ← nextTuple⟩) b

/-- The image of an index entry, an identity. -/
def entryToBytes (identity : Tuple) : Bytes := Image.toBytes (tuple identity)

/-- The index entry of an image. -/
def entryOfBytes (b : Bytes) : Except Error Tuple := decoded <| ofBytes? nextTuple b

/-- The image of a request. -/
def Request.toBytes (r : Request) : Bytes :=
  Image.toBytes ([.string r.query, .uint64 r.maxBlock] ++ tuple r.first ++ tuple r.last ++
    [.uint32 r.maxResults])

/-- The request of an image. -/
def Request.ofBytes (b : Bytes) : Except Error Request :=
  decoded <| ofBytes?
    (do return ⟨← nextText, ← nextWord, ← nextTuple, ← nextTuple, ← nextHalf⟩) b

/-- The image of a response. -/
def Response.toBytes (r : Response) : Bytes :=
  let row (row : Row) : Tuple := [.uint64 row.block, .bool row.present] ++ tuple row.values
  Image.toBytes (list (fun label => [.string label]) r.columns ++ list row r.rows ++
    list tuple r.more.toList)

/-- The response of an image. -/
def Response.ofBytes (b : Bytes) : Except Error Response :=
  decoded <| ofBytes? (do
    let columns ← nextList nextText
    let rows ← nextList (do return ⟨← nextWord, ← nextBool, ← nextTuple⟩)
    let more ← nextList nextTuple
    return ⟨columns, rows, more.head?⟩) b

namespace Directory

/-- The values of a tree under its name. -/
def treeImage (write : α → Tuple) (named : String × SortedMap Bytes α) : Tuple :=
  .string named.1 :: list (fun e => .bytes e.1 :: write e.2) named.2.entries

/-- The image of a directory. -/
def toBytes (d : Directory) : Bytes :=
  Image.toBytes (.uint64 d.head ::
    (list (treeImage fun f : StoredFact => tuple f.identity ++ tuple f.payload) d.facts.entries ++
      list (treeImage tuple) d.indexes.entries))

/-- The tree that comes next, with its name. -/
def nextTree (read : Reader α) : Reader (String × SortedMap Bytes α) := do
  let name ← nextText
  let entries ← nextList (do return (← nextBytes, ← read))
  return (name, SortedMap.ofList entries)

/-- The directory of an image. -/
def ofBytes (b : Bytes) : Except Error Directory :=
  decoded <| ofBytes? (do
    let head ← nextWord
    let facts ← nextList (nextTree (do return ⟨← nextTuple, ← nextTuple⟩))
    let indexes ← nextList (nextTree nextTuple)
    return ⟨SortedMap.ofList facts, SortedMap.ofList indexes, head⟩) b

end Directory
end Chronicle
