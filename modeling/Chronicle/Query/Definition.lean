import Chronicle.Schema.Index

/-!
# Query definitions

A configuration lists tables, indexes and named queries. This module holds
what is written there, before anything is checked.
-/

namespace Chronicle

/-- A field that a join is to add. -/
structure JoinSelection where
  /-- The field of the second table. -/
  name : String
  /-- The label of its column, if it is not the name. -/
  newName : Option String
  deriving DecidableEq, Repr

/-- A join as it is written. -/
structure JoinDefinition where
  /-- The second table. -/
  table : String
  /-- The fields of the first table that form the second identity. -/
  keyValues : List String
  /-- The fields to add. -/
  fields : List JoinSelection
  deriving DecidableEq, Repr

/-- A named query as it is written. -/
structure QueryDefinition where
  /-- The query name. -/
  name : String
  /-- The index that is walked. -/
  index : String
  /-- Whether nothing after the head block is seen. -/
  limitBlock : Bool
  /-- The largest number of rows of a page, whatever a request says. -/
  maxResults : UInt32
  /-- The join, if there is one. -/
  join : Option JoinDefinition
  deriving DecidableEq, Repr

/-- Tables, indexes and queries as they are written. -/
structure Configuration where
  /-- The tables. -/
  tables : List Table
  /-- The indexes. -/
  indexes : List Index
  /-- The queries. -/
  queries : List QueryDefinition
  deriving DecidableEq, Repr

namespace JoinDefinition

/-- A join that adds no fields. -/
def named (table : String) (keyValues : List String) : JoinDefinition := ⟨table, keyValues, []⟩

/-- Add a field. -/
def withField (j : JoinDefinition) (name : String) (newName : Option String) : JoinDefinition :=
  { j with fields := j.fields ++ [⟨name, newName⟩] }

/-- The JSON form of an added field. -/
def selectionToJson (s : JoinSelection) : Json :=
  let label := match s.newName with
    | some label => [("new_name", .string label)]
    | none => []
  .object ([("name", .string s.name)] ++ label)

/-- The added field of a document. -/
def selectionOfDocument? (d : Json.Document) : Option JoinSelection :=
  match d.fields? [.required "name", .defaulted "new_name"] with
  | some [some name, label] => do
    let label ← match label with
      | some d => d.nullable? Json.Document.string?
      | none => some none
    return ⟨← name.string?, label⟩
  | _ => none

/-- The JSON form. -/
def toJson (j : JoinDefinition) : Json :=
  .object [("table", .string j.table), ("key_values", namesToJson j.keyValues),
    ("fields", .array (j.fields.map selectionToJson))]

/-- The join of a document. -/
def ofDocument? (d : Json.Document) : Option JoinDefinition :=
  match d.fields? [.required "table", .required "key_values", .defaulted "fields"] with
  | some [some table, some keyValues, fields] => do
    let fields ← match fields with
      | some d => d.list? selectionOfDocument?
      | none => some []
    return ⟨← table.string?, ← keyValues.list? Json.Document.string?, fields⟩
  | _ => none

end JoinDefinition

namespace QueryDefinition

/-- The rows of a page unless a definition says otherwise. -/
def defaultMaxResults : UInt32 := 100

/-- A query over an index with default settings. -/
def named (name index : String) : QueryDefinition := ⟨name, index, true, defaultMaxResults, none⟩

/-- The JSON form. -/
def toJson (q : QueryDefinition) : Json :=
  let join := match q.join with
    | some j => [("join", j.toJson)]
    | none => []
  .object ([("name", .string q.name), ("index", .string q.index),
    ("limit_block_index", .bool q.limitBlock),
    ("max_results", .integer q.maxResults.toNat)] ++ join)

/-- The query of a document. -/
def ofDocument? (d : Json.Document) : Option QueryDefinition :=
  match d.fields? [.required "name", .required "index", .defaulted "limit_block_index",
      .defaulted "max_results", .defaulted "join"] with
  | some [some name, some index, limit, rows, join] => do
    let limit ← match limit with
      | some d => d.bool?
      | none => some true
    let rows ← match rows with
      | some d => Value.uint32? d
      | none => some defaultMaxResults
    let join ← match join with
      | some d => d.nullable? JoinDefinition.ofDocument?
      | none => some none
    return ⟨← name.string?, ← index.string?, limit, rows, join⟩
  | _ => none

end QueryDefinition

namespace Configuration

/-- The JSON form. -/
def toJson (c : Configuration) : Json :=
  .object [("tables", .array (c.tables.map Table.toJson)),
    ("indexes", .array (c.indexes.map Index.toJson)),
    ("queries", .array (c.queries.map QueryDefinition.toJson))]

/-- A list of definitions that may be left out. -/
def listed? (read : Json.Document → Option α) : Option Json.Document → Option (List α)
  | some d => d.list? read
  | none => some []

/-- The configuration of a document. -/
def ofDocument? (d : Json.Document) : Option Configuration :=
  match d.fields? [.defaulted "tables", .defaulted "indexes", .defaulted "queries"] with
  | some [tables, indexes, queries] => do
    return ⟨← listed? Table.ofDocument? tables, ← listed? Index.ofDocument? indexes,
      ← listed? QueryDefinition.ofDocument? queries⟩
  | _ => none

/-- The configuration of a JSON text. -/
def ofText (text : String) : Except Error Configuration :=
  match (Json.Document.ofText? text).bind ofDocument? with
  | some c => .ok c
  | none => .error .malformed

end Configuration
end Chronicle
