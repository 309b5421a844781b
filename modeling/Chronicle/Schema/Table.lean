import Chronicle.Error
import Chronicle.Value.Json

/-!
# Tables

A table lists typed fields. Some of them, in an order of their own, form the
identity of a fact, and the others its payload. This module checks
definitions, checks tuples against them, and moves between the two parts of a
fact and the full row.
-/

namespace Chronicle

/-- A typed field. -/
structure Field where
  /-- The field name. -/
  name : String
  /-- The type of its values. -/
  type : ScalarType
  deriving DecidableEq, Repr

/-- A table of versioned facts. -/
structure Table where
  /-- The table name. -/
  name : String
  /-- All fields, in declaration order. -/
  fields : List Field
  /-- The names of the identity fields, in identity order. -/
  keys : List String
  deriving DecidableEq, Repr

/-- The value of a type that a plain JSON form stands for. -/
def ScalarType.valueOfJson (t : ScalarType) (j : Json) : Except Error Value :=
  match t.ofJson? j with
  | some v => .ok v
  | none => .error (Violation.mismatch t j)

/-- The first name in a list that occurs before it or among the given names. -/
def firstRepeat (seen : List String) : List String → Option String
  | [] => none
  | name :: rest => if name ∈ seen then some name else firstRepeat (name :: seen) rest

namespace Table

/-- A table without fields. -/
def named (name : String) : Table := ⟨name, [], []⟩

/-- Add a payload field. -/
def withField (t : Table) (name : String) (type : ScalarType) : Table :=
  { t with fields := t.fields ++ [⟨name, type⟩] }

/-- Add an identity field. -/
def withKey (t : Table) (name : String) (type : ScalarType) : Table :=
  { t with fields := t.fields ++ [⟨name, type⟩], keys := t.keys ++ [name] }

/-- The names of the fields, in declaration order. -/
def fieldNames (t : Table) : List String := t.fields.map (·.name)

/-- The field of a name. -/
def field? (t : Table) (name : String) : Option Field := t.fields.find? (·.name == name)

/-- The position of a field in declaration order. -/
def fieldIndex? (t : Table) (name : String) : Option Nat :=
  t.fields.findIdx? (·.name == name)

/-- The position of a field in the identity. -/
def keyIndex? (t : Table) (name : String) : Option Nat := t.keys.findIdx? (· == name)

/-- Whether a field belongs to the identity. -/
def isKey (t : Table) (name : String) : Bool := (t.keyIndex? name).isSome

/-- The first flaw among the remaining identity fields, given those before. -/
def keyFlaw? (t : Table) (seen : List String) : List String → Option Flaw
  | [] => none
  | key :: rest =>
    if key ∉ t.fieldNames then some (.keyNotField t.name key)
    else if key ∈ seen then some (.keyTwice t.name key)
    else keyFlaw? t (key :: seen) rest

/-- The first flaw of a table. The name is checked first, then the fields,
then the identity. -/
def flaw? (t : Table) : Option Flaw :=
  if t.name.isEmpty then some .tableUnnamed
  else match firstRepeat [] t.fieldNames with
    | some field => some (.duplicateField t.name field)
    | none => if t.keys.isEmpty then some (.noKeys t.name) else t.keyFlaw? [] t.keys

/-- Refuse a table with a flaw. -/
def validate (t : Table) : Except Error Unit :=
  match t.flaw? with
  | some flaw => .error flaw
  | none => .ok ()

/-- The types of the identity, in identity order. -/
def keyTypes (t : Table) : List ScalarType :=
  t.keys.filterMap fun key => (t.field? key).map (·.type)

/-- The fields outside the identity, in declaration order. -/
def payloadFields (t : Table) : List Field := t.fields.filter fun f => !t.isKey f.name

/-- The types of the payload, in declaration order. -/
def payloadTypes (t : Table) : List ScalarType := t.payloadFields.map (·.type)

/-- The payload of a retracted fact. -/
def defaultPayload (t : Table) : Tuple := t.payloadTypes.map (·.default)

/-- The first value of another type than expected, with its position. -/
def misfit? (position : Nat) : List ScalarType → Tuple → Option (Nat × Value × ScalarType)
  | t :: types, v :: values =>
    if t.admits v then misfit? (position + 1) types values else some (position, v, t)
  | _, _ => none

/-- Check a tuple against the types of a part. -/
def checkValues (t : Table) (part : FactPart) (types : List ScalarType) (values : Tuple) :
    Except Error Unit :=
  if types.length ≠ values.length then
    .error (Violation.arity t.name part values.length types.length)
  else match misfit? 0 types values with
    | some (position, v, expected) =>
      .error (Violation.valueType t.name part position v.type expected)
    | none => .ok ()

/-- Check an identity. -/
def checkIdentity (t : Table) (identity : Tuple) : Except Error Unit :=
  t.checkValues .identity t.keyTypes identity

/-- Check a payload. -/
def checkPayload (t : Table) (payload : Tuple) : Except Error Unit :=
  t.checkValues .payload t.payloadTypes payload

/-- The row of the given fields. An identity field is looked up, any other
takes the next payload value, or its default when there are no more. -/
def assembleFields (t : Table) (identity : Tuple) : List Field → Tuple → Except Error Tuple
  | [], _ => .ok []
  | f :: rest, payload =>
    match t.keyIndex? f.name with
    | some position =>
      match identity[position]? with
      | none => .error (.fault .missingValue)
      | some v => (assembleFields t identity rest payload).map (v :: ·)
    | none =>
      match payload with
      | [] => (assembleFields t identity rest []).map (f.type.default :: ·)
      | v :: more => (assembleFields t identity rest more).map (v :: ·)

/-- The row of an identity and a payload, in declaration order. -/
def assemble (t : Table) (identity payload : Tuple) : Except Error Tuple :=
  t.assembleFields identity t.fields payload

/-- The value of an identity field in an object. -/
def keyValue (t : Table) (object : SortedMap String Json) (key : String) : Except Error Value :=
  match t.field? key with
  | none => .error (Flaw.keyUnknown t.name key)
  | some f =>
    match object.get? key with
    | none => .error (Violation.missingKey t.name key)
    | some j => f.type.valueOfJson j

/-- The value of a payload field in an object, its default if it is missing. -/
def payloadValue (object : SortedMap String Json) (f : Field) : Except Error Value :=
  match object.get? f.name with
  | none => .ok f.type.default
  | some j => f.type.valueOfJson j

/-- The identity and payload of a JSON object whose members are fields. -/
def valuesOfObject (t : Table) (object : SortedMap String Json) :
    Except Error (Tuple × Tuple) := do
  let identity ← t.keys.mapM (t.keyValue object)
  let payload ← t.payloadFields.mapM (payloadValue object)
  match object.keys.find? fun name => (t.field? name).isNone with
  | some name => .error (Violation.unknownField t.name name)
  | none => .ok (identity, payload)

end Table

/-- The JSON form of a field. -/
def Field.toJson (f : Field) : Json :=
  .object [("name", .string f.name), ("type", f.type.toJson)]

/-- The field of a document. -/
def Field.ofDocument? (d : Json.Document) : Option Field :=
  match d.fields? [.required "name", .required "type"] with
  | some [some name, some type] => do
    return ⟨← name.string?, ← ScalarType.ofDocument? type⟩
  | _ => none

/-- The JSON form of a list of names. -/
def namesToJson (names : List String) : Json := .array (names.map .string)

/-- The JSON form of a table. -/
def Table.toJson (t : Table) : Json :=
  .object [("name", .string t.name), ("fields", .array (t.fields.map Field.toJson)),
    ("keys", namesToJson t.keys)]

/-- The table of a document. -/
def Table.ofDocument? (d : Json.Document) : Option Table :=
  match d.fields? [.required "name", .required "fields", .required "keys"] with
  | some [some name, some fields, some keys] => do
    return ⟨← name.string?, ← fields.list? Field.ofDocument?, ← keys.list? Json.Document.string?⟩
  | _ => none

end Chronicle
