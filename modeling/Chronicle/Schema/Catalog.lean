import Chronicle.Schema.Index

/-!
# The catalog

The tables and indexes known by name. Definitions are checked when they are
added, may be added again unchanged, and are never replaced.
-/

namespace Chronicle

/-- Known tables and indexes. Index names are shared by all tables. -/
structure Catalog where
  /-- The tables by name. -/
  tables : SortedMap String Table
  /-- The indexes by name. -/
  indexes : SortedMap String Index

namespace Catalog

/-- The catalog without definitions. -/
def empty : Catalog := ⟨.empty, .empty⟩

instance : Inhabited Catalog := ⟨empty⟩

/-- Add a table. -/
def addTable (c : Catalog) (t : Table) : Except Error Catalog := do
  t.validate
  match c.tables.get? t.name with
  | none => .ok { c with tables := c.tables.insert t.name t }
  | some known => if known = t then .ok c else .error (Flaw.tableDiffers t.name)

/-- The table of a name. -/
def table (c : Catalog) (name : String) : Except Error Table :=
  match c.tables.get? name with
  | some t => .ok t
  | none => .error (.unknownTable name)

/-- The index of a name. -/
def index (c : Catalog) (name : String) : Except Error Index :=
  match c.indexes.get? name with
  | some i => .ok i
  | none => .error (.unknownIndex name)

/-- Add an index on a known table, and compile it. -/
def addIndex (c : Catalog) (i : Index) : Except Error (Layout × Catalog) := do
  let t ← c.table i.table
  let layout ← i.compile t
  match c.indexes.get? i.name with
  | none => .ok (layout, { c with indexes := c.indexes.insert i.name i })
  | some known => if known = i then .ok (layout, c) else .error (Flaw.indexDiffers i.name)

end Catalog
end Chronicle
