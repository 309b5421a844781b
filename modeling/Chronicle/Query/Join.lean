import Chronicle.Query.Row

/-!
# Joins

A join adds fields of a second table to the rows of a first. The identity in
the second table is read off the row, and is seen as of the same block. Where
it is absent the added fields have their defaults.
-/

namespace Chronicle

/-- A field that a join adds. -/
structure JoinedField where
  /-- Its position in the second table. -/
  position : Nat
  /-- The label of its column. -/
  label : String
  /-- Its type. -/
  type : ScalarType
  deriving DecidableEq, Repr

/-- A checked join. -/
structure Join where
  /-- The name of the second table. -/
  table : String
  /-- The positions in the first table that form the second identity. -/
  keyPositions : List Nat
  /-- Whether the second identity depends on payload of the first table. -/
  keyReadsPayload : Bool
  /-- The added fields, in column order. -/
  fields : List JoinedField
  deriving DecidableEq, Repr

namespace Join

/-- The positions of the key fields, each of the type expected at its place in
the second identity. -/
def keyPositions? (first second : Table) :
    List String → List ScalarType → Except Error (List Nat)
  | name :: names, expected :: types =>
    match first.fieldIndex? name, first.field? name with
    | some position, some f =>
      if f.type = expected then
        (keyPositions? first second names types).map (position :: ·)
      else .error (Flaw.joinKeyType first.name second.name name f.type expected)
    | _, _ => .error (Flaw.joinKeyUnknown first.name second.name name)
  | _, _ => .ok []

/-- A field of the second table under its label. -/
def selectField (first second : Table) (selected : String × Option String) :
    Except Error JoinedField :=
  match second.fieldIndex? selected.1, second.field? selected.1 with
  | some position, some f => .ok ⟨position, selected.2.getD selected.1, f.type⟩
  | _, _ => .error (Flaw.joinFieldUnknown first.name second.name selected.1)

/-- Check a join between two tables. The key fields are fields of the first
table, the selected ones fields of the second, each possibly with a label of
its own. -/
def compile (first second : Table) (keyFields : List String)
    (selected : List (String × Option String)) : Except Error Join :=
  if keyFields.length ≠ second.keys.length then
    .error (Flaw.joinArity first.name second.name keyFields.length second.keys.length)
  else do
    let positions ← keyPositions? first second keyFields second.keyTypes
    let fields ← selected.mapM (selectField first second)
    return ⟨second.name, positions, keyFields.any fun name => !first.isKey name, fields⟩

/-- The labels of the added fields. -/
def labels (j : Join) : List String := j.fields.map (·.label)

/-- The default of every added field. -/
def defaults (j : Join) : Tuple := j.fields.map (·.type.default)

/-- The values at some positions of a tuple. -/
def pick (values : Tuple) (positions : List Nat) : Except Error Tuple :=
  positions.mapM fun position =>
    match values[position]? with
    | some v => .ok v
    | none => .error (.fault .missingValue)

/-- The second identity that belongs to a row. -/
def deriveKey (j : Join) (row : Row) : Except Error Tuple := pick row.values j.keyPositions

/-- The added values of a row as of a block, read from the store of the second
table. A tombstone has no payload to derive an identity from. -/
def resolve (j : Join) (second : FactStore) (d : Directory) (row : Row) (block : UInt64) :
    Except Error Tuple :=
  if !row.present && j.keyReadsPayload then .ok j.defaults
  else do
    match ← second.resolveRow d (← j.deriveKey row) block with
    | some found => pick found.values (j.fields.map (·.position))
    | none => return j.defaults

end Join
end Chronicle
