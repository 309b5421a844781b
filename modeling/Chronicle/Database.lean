import Chronicle.Query.Page
import Chronicle.Query.Registry
import Chronicle.Query.Request
import Chronicle.Query.Response

/-!
# Databases

A database is a session on a directory. The directory holds what is stored;
the session knows the registered tables and indexes and the installed queries.
An operation that can fail half-way returns the database as it leaves it
beside its result.
-/

namespace Chronicle

/-- A session on a directory. -/
structure Database where
  /-- What is stored. -/
  directory : Directory
  /-- The known definitions. -/
  catalog : Catalog
  /-- The stores of the registered tables, by table name. -/
  stores : SortedMap String FactStore
  /-- The installed queries. -/
  queries : Registry

namespace Database

/-- A new session on a directory. -/
def ofDirectory (d : Directory) : Database := ⟨d, .empty, .empty, .empty⟩

/-- The store of a registered table. -/
def store (db : Database) (table : String) : Except Error FactStore :=
  match db.stores.get? table with
  | some s => .ok s
  | none => .error (.unknownTable table)

/-- Register a table. -/
def registerTable (db : Database) (t : Table) : Except Error (Database × FactStore) := do
  let catalog ← db.catalog.addTable t
  match db.stores.get? t.name with
  | some s => return ({ db with catalog }, s)
  | none =>
    let s ← FactStore.ofTable t
    return ({ db with catalog, stores := db.stores.insert t.name s }, s)

/-- Register an index of a registered table. The catalog knows the index even
if it cannot be built. -/
def registerIndex (db : Database) (i : Index) : Database × Except Error Layout :=
  match db.catalog.addIndex i with
  | .error e => (db, .error e)
  | .ok (_, catalog) =>
    let db := { db with catalog }
    match db.store i.table with
    | .error e => (db, .error e)
    | .ok s =>
      match s.registerIndex db.directory i with
      | (directory, .error e) => ({ db with directory }, .error e)
      | (directory, .ok (s, layout)) =>
        ({ db with directory, stores := db.stores.insert i.table s }, .ok layout)

/-- Register tables up to the first that fails. -/
def registerTables (db : Database) : List Table → Database × Except Error Unit
  | [] => (db, .ok ())
  | t :: rest =>
    match db.registerTable t with
    | .error e => (db, .error e)
    | .ok (db, _) => db.registerTables rest

/-- Register indexes up to the first that fails. -/
def registerIndexes (db : Database) : List Index → Database × Except Error Unit
  | [] => (db, .ok ())
  | i :: rest =>
    match db.registerIndex i with
    | (db, .error e) => (db, .error e)
    | (db, .ok _) => db.registerIndexes rest

/-- Replace the installed queries, once all new ones are checked. -/
def install (db : Database) (queries : List QueryDefinition) : Database × Except Error Unit :=
  match Registry.prepare db.catalog queries with
  | .error e => (db, .error e)
  | .ok queries => ({ db with queries }, .ok ())

/-- Register the tables and indexes of a configuration and install its
queries. On a failure the queries installed before stay. -/
def loadConfiguration (db : Database) (c : Configuration) : Database × Except Error Unit :=
  match db.registerTables c.tables with
  | (db, .error e) => (db, .error e)
  | (db, .ok _) =>
    match db.registerIndexes c.indexes with
    | (db, .error e) => (db, .error e)
    | (db, .ok _) => db.install c.queries

/-- Append a fact to a table, and raise the head block to its block. -/
def append (db : Database) (table : String) (f : Fact) : Database × Except Error AppendOutcome :=
  match db.store table with
  | .error e => (db, .error e)
  | .ok s =>
    match s.append db.directory f with
    | (directory, .error e) => ({ db with directory }, .error e)
    | (directory, .ok outcome) => ({ db with directory := directory.advance f.block }, .ok outcome)

/-- The head block. -/
def headBlock (db : Database) : UInt64 := db.directory.head

/-- Set the head block. -/
def setHeadBlock (db : Database) (block : UInt64) : Database :=
  { db with directory := { db.directory with head := block } }

/-- The block as of which a request is answered. -/
def snapshot (db : Database) (q : QueryDefinition) (r : Request) : UInt64 :=
  if q.limitBlock then min r.maxBlock db.headBlock else 18446744073709551615

/-- The rows that a page may have. -/
def pageLimit (q : QueryDefinition) (r : Request) : Nat :=
  (min r.maxResults q.maxResults).toNat

/-- The join of a query with the store of its second table. -/
def joinSource (db : Database) : Option Join → Except Error (Option JoinSource)
  | none => .ok none
  | some join => (db.store join.table).map fun second => some ⟨join, second⟩

/-- Where a query reads. -/
def rangeSource (db : Database) (q : PreparedQuery) : Except Error RangeSource := do
  let store ← db.store q.table
  let layout ← store.layout q.definition.index
  return ⟨store, layout, ← db.joinSource q.join⟩

/-- Answer a request. -/
def query (db : Database) (r : Request) : Except Error Response := do
  let q ← db.queries.find r.query
  let source ← db.rangeSource q
  let page ← source.page db.directory r.first r.last (db.snapshot q.definition r)
    (pageLimit q.definition r)
  return ⟨q.columns, page.rows, page.more⟩

/-- The value of a bound at a sort key. -/
def boundValue (t : Table) (k : SortKey) (j : Json) : Except Error Value :=
  match t.field? k.field with
  | none => .error (Flaw.fieldUnknown t.name k.field)
  | some f => f.type.valueOfJson j

/-- The values of a bound at the sort keys. -/
def boundValues (t : Table) : List SortKey → List Json → Except Error Tuple
  | k :: keys, j :: elements => do
    let first ← boundValue t k j
    let rest ← boundValues t keys elements
    return first :: rest
  | _, _ => .ok []

/-- The bound of a query that a JSON array stands for. -/
def boundOfJson (db : Database) (query : String) (j : Json) : Except Error Tuple := do
  let q ← db.queries.find query
  let index ← db.catalog.index q.definition.index
  let table ← db.catalog.table index.table
  match j with
  | .array elements =>
    if elements.length ≠ index.sortKeys.length then
      .error (Violation.boundLength query elements.length index.sortKeys.length)
    else boundValues table index.sortKeys elements
  | _ => .error (Violation.boundNotArray query)

end Database
end Chronicle
