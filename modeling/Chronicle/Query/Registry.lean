import Chronicle.Query.Definition
import Chronicle.Query.Join
import Chronicle.Schema.Catalog

/-!
# Prepared queries

A query is prepared once against the catalog. Its index and join exist, its
join is well typed, and its columns have different labels, so running it later
meets no invalid definition.
-/

namespace Chronicle

/-- A checked query. -/
structure PreparedQuery where
  /-- The definition. -/
  definition : QueryDefinition
  /-- The table of its index. -/
  table : String
  /-- The labels of the columns, the fields of the table before joined ones. -/
  columns : List String
  /-- The checked join. -/
  join : Option Join
  deriving DecidableEq, Repr

/-- Checked queries by name. -/
abbrev Registry := SortedMap String PreparedQuery

namespace PreparedQuery

/-- Check the join of a query. -/
def compileJoin (c : Catalog) (query : String) (first : Table) (j : JoinDefinition) :
    Except Error Join :=
  match c.tables.get? j.table with
  | none => .error (Flaw.queryJoinTable query j.table)
  | some second => Join.compile first second j.keyValues (j.fields.map fun f => (f.name, f.newName))

/-- Check a query. -/
def compile (c : Catalog) (q : QueryDefinition) : Except Error PreparedQuery := do
  match c.indexes.get? q.index with
  | none => .error (Flaw.queryIndex q.name q.index)
  | some index =>
    let table ← c.table index.table
    let join ← match q.join with
      | none => pure none
      | some j => (compileJoin c q.name table j).map some
    let columns := table.fieldNames ++ (join.map Join.labels).getD []
    match firstRepeat [] columns with
    | some column => .error (Flaw.duplicateColumn q.name column)
    | none => return ⟨q, table.name, columns, join⟩

end PreparedQuery

namespace Registry

/-- Check further queries and add them under their names. -/
def prepareFrom (c : Catalog) (r : Registry) : List QueryDefinition → Except Error Registry
  | [] => .ok r
  | q :: rest => do
    let prepared ← PreparedQuery.compile c q
    if r.contains q.name then .error (Flaw.duplicateQuery q.name)
    else prepareFrom c (r.insert q.name prepared) rest

/-- Check queries, which must have different names. -/
def prepare (c : Catalog) (queries : List QueryDefinition) : Except Error Registry :=
  prepareFrom c .empty queries

/-- The query of a name. -/
def find (r : Registry) (name : String) : Except Error PreparedQuery :=
  match r.get? name with
  | some q => .ok q
  | none => .error (.unknownQuery name)

end Registry
end Chronicle
