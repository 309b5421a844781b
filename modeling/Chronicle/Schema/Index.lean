import Chronicle.Schema.Projection
import Chronicle.Schema.Table
import Chronicle.Storage.Key

/-!
# Indexes

An index orders the identities of a table by some of their fields, each in a
direction and possibly coarsened by an expression. Every identity field occurs
at least once by itself, so a tuple of sort-key values names one identity. A
compiled index is a layout, which places bounds and identities.
-/

namespace Chronicle

/-- One component of an index's order. -/
structure SortKey where
  /-- The identity field that is read. -/
  field : String
  /-- The direction of the order. -/
  direction : Direction
  /-- What is done to the field first. -/
  expression : Option Expression
  deriving DecidableEq, Repr

/-- A named order over the identities of a table. -/
structure Index where
  /-- The index name. -/
  name : String
  /-- The name of the table. -/
  table : String
  /-- The components, most significant first. -/
  sortKeys : List SortKey
  deriving DecidableEq, Repr

/-- A component of a compiled index. -/
structure LayoutKey where
  /-- The identity field that is read. -/
  field : String
  /-- Its position in the identity. -/
  position : Nat
  /-- Its type. -/
  type : ScalarType
  /-- What is done to the field first. -/
  expression : Option Expression
  /-- The direction of the order. -/
  direction : Direction
  deriving DecidableEq, Repr

/-- A compiled index. -/
structure Layout where
  /-- The index name. -/
  name : String
  /-- The name of the table. -/
  table : String
  /-- The components, most significant first. -/
  keys : List LayoutKey
  deriving DecidableEq, Repr

/-- Ascending order by a field. -/
def SortKey.asc (field : String) : SortKey := ⟨field, .asc, none⟩

/-- Descending order by a field. -/
def SortKey.desc (field : String) : SortKey := ⟨field, .desc, none⟩

/-- The same component with an expression. -/
def SortKey.withExpression (k : SortKey) (e : Expression) : SortKey :=
  { k with expression := some e }

namespace Index

/-- An index without sort keys. -/
def named (name table : String) : Index := ⟨name, table, []⟩

/-- Add a sort key. -/
def withSortKey (i : Index) (k : SortKey) : Index := { i with sortKeys := i.sortKeys ++ [k] }

/-- Compile one component. -/
def compileKey (i : Index) (t : Table) (k : SortKey) : Except Error LayoutKey :=
  match t.keyIndex? k.field with
  | none => .error (Flaw.sortKeyNotIdentity i.name k.field t.name)
  | some position =>
    match t.field? k.field with
    | none => .error (Flaw.sortKeyUnknown i.name)
    | some f =>
      let key : LayoutKey := ⟨k.field, position, f.type, k.expression, k.direction⟩
      match k.expression with
      | none => .ok key
      | some e => (e.outputType f.type).map fun _ => key

/-- Whether a component reads a position of the identity as it is. -/
def covers (position : Nat) (k : LayoutKey) : Bool :=
  k.expression.isNone && k.position == position

/-- The first of the remaining identity fields that no component reads as it
is. -/
def uncovered? (keys : List LayoutKey) (position : Nat) : List String → Option String
  | [] => none
  | key :: rest =>
    if keys.any (covers position) then uncovered? keys (position + 1) rest else some key

/-- Check an index against its table and find its fields. -/
def compile (i : Index) (t : Table) : Except Error Layout :=
  if i.table ≠ t.name then .error (Flaw.foreignIndex i.name i.table t.name)
  else if i.sortKeys.isEmpty then .error (Flaw.noSortKeys i.name)
  else match i.sortKeys.mapM (i.compileKey t) with
    | .error e => .error e
    | .ok keys =>
      match uncovered? keys 0 t.keys with
      | some key => .error (Flaw.keyNotCovered i.name key)
      | none => .ok ⟨i.name, i.table, keys⟩

end Index

/-- A field's value in the order of a component. -/
def LayoutKey.project (k : LayoutKey) (v : Value) : Except Error Value :=
  match k.expression with
  | some e => e.apply v
  | none => .ok v

namespace Layout

/-- The number of components. -/
def arity (l : Layout) : Nat := l.keys.length

/-- The fields that a bound gives values for. -/
def fieldNames (l : Layout) : List String := l.keys.map (·.field)

/-- The direction of each component. -/
def directions (l : Layout) : List Direction := l.keys.map (·.direction)

/-- The order of projected tuples. -/
def comparator (l : Layout) : Comparator := ⟨l.directions⟩

/-- The first value of a bound that has another type than its component. -/
def misfit? : List LayoutKey → Tuple → Option (LayoutKey × Value)
  | k :: keys, v :: values => if k.type.admits v then misfit? keys values else some (k, v)
  | _, _ => none

/-- Refuse a bound of the wrong shape or types. -/
def checkBound (l : Layout) (bound : Tuple) : Except Error Unit :=
  if bound.length ≠ l.keys.length then
    .error (Violation.boundArity l.name bound.length l.fieldNames)
  else match misfit? l.keys bound with
    | some (k, v) => .error (Violation.boundType l.name k.field v.type k.type)
    | none => .ok ()

/-- Project the values of a tuple shaped like a bound, up to the shorter of
the two. -/
def projectKeys : List LayoutKey → Tuple → Except Error Tuple
  | k :: keys, v :: values => do
    let first ← k.project v
    let rest ← projectKeys keys values
    return first :: rest
  | _, _ => .ok []

/-- Project a tuple shaped like a bound. -/
def project (l : Layout) (raw : Tuple) : Except Error Tuple := projectKeys l.keys raw

/-- The sort-key values of an identity, shaped like a bound. -/
def boundOf (l : Layout) (identity : Tuple) : Except Error Tuple :=
  l.keys.mapM fun k =>
    match identity[k.position]? with
    | some v => .ok v
    | none => .error (.fault .missingValue)

/-- The key of a projected tuple. -/
def encode (l : Layout) (projected : Tuple) : Bytes := Key.ofTuple l.directions projected

/-- The place of a bound in the index. -/
def positionOfBound (l : Layout) (bound : Tuple) : Except Error Bytes := do
  l.checkBound bound
  return l.encode (← l.project bound)

/-- The place of an identity in the index. -/
def positionOfIdentity (l : Layout) (identity : Tuple) : Except Error Bytes := do
  return l.encode (← l.project (← l.boundOf identity))

end Layout

/-- The name of a direction. -/
def Direction.name : Direction → String
  | asc => "asc"
  | desc => "desc"

/-- The direction that a document names. -/
def Direction.ofDocument? (d : Json.Document) : Option Direction :=
  match d.caseName? with
  | some "asc" => some .asc
  | some "desc" => some .desc
  | _ => none

/-- The JSON form of a component. -/
def SortKey.toJson (k : SortKey) : Json :=
  let expression := match k.expression with
    | some e => [("expression", e.toJson)]
    | none => []
  .object ([("name", .string k.field), ("direction", .string k.direction.name)] ++ expression)

/-- The component of a document. -/
def SortKey.ofDocument? (d : Json.Document) : Option SortKey :=
  match d.fields? [.required "name", .defaulted "direction", .defaulted "expression"] with
  | some [some name, direction, expression] => do
    let direction ← match direction with
      | some d => Direction.ofDocument? d
      | none => some .asc
    let expression ← match expression with
      | some d => d.nullable? Expression.ofDocument?
      | none => some none
    return ⟨← name.string?, direction, expression⟩
  | _ => none

/-- The JSON form of an index. -/
def Index.toJson (i : Index) : Json :=
  .object [("name", .string i.name), ("table", .string i.table),
    ("sort_keys", .array (i.sortKeys.map SortKey.toJson))]

/-- The index of a document. -/
def Index.ofDocument? (d : Json.Document) : Option Index :=
  match d.fields? [.required "name", .required "table", .required "sort_keys"] with
  | some [some name, some table, some sortKeys] => do
    return ⟨← name.string?, ← table.string?, ← sortKeys.list? SortKey.ofDocument?⟩
  | _ => none

end Chronicle
