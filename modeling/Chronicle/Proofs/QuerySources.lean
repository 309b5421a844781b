import Chronicle.Proofs.Sessions

/-!
# Query sources

A catalog only grows, so an installed query is at every time what its
definition compiles to. What it reads can be told by its definition and the
catalog: the table of its index, the layout that the index compiles to, a join
that takes the fields of the names in the definition, and the labels and types
of its columns.
-/

namespace Chronicle

open FactStore

/-- The labels and types of the fields of a table. -/
def Table.columns (t : Table) : List (String × ScalarType) := t.fields.map fun f => (f.name, f.type)

/-- The labels and types of the fields that a join adds. -/
def Join.columns (j : Join) : List (String × ScalarType) := j.fields.map fun f => (f.label, f.type)

/-- The label and type of a field that is selected from a table. -/
def JoinSelection.column? (s : JoinSelection) (t : Table) : Option (String × ScalarType) :=
  (t.field? s.name).map fun f => (s.newName.getD s.name, f.type)

/-- The columns that a join adds, by the definitions of a catalog. -/
def JoinDefinition.columns? (j : JoinDefinition) (c : Catalog) :
    Option (List (String × ScalarType)) := do
  let second ← c.tables.get? j.table
  j.fields.mapM (·.column? second)

/-- The columns of a query, by the definitions of a catalog: the fields of the
table of its index, and those that its join selects. -/
def QueryDefinition.columns? (q : QueryDefinition) (c : Catalog) :
    Option (List (String × ScalarType)) := do
  let i ← c.indexes.get? q.index
  let first ← c.tables.get? i.table
  match q.join with
  | none => return first.columns
  | some j => return first.columns ++ (← j.columns? c)

namespace Join

/-- A selected field has the column that its selection says. -/
theorem column_of_selectField {first second : Table} {s : JoinSelection} {f : JoinedField}
    (h : selectField first second (s.name, s.newName) = .ok f) :
    s.column? second = some (f.label, f.type) := by
  rw [selectField] at h
  split at h
  · rename_i hfield
    cases h
    rw [JoinSelection.column?, hfield]
    rfl
  · cases h

/-- A checked join adds the columns that its definition says. -/
theorem columns_of_compileJoin {c : Catalog} {name : String} {first : Table}
    {definition : JoinDefinition} {j : Join}
    (h : PreparedQuery.compileJoin c name first definition = .ok j) :
    definition.columns? c = some j.columns := by
  obtain ⟨second, hsecond, hcompiled⟩ := PreparedQuery.compileJoin_eq_ok.mp h
  obtain ⟨-, -, hfields, -⟩ := compile_eq_ok hcompiled
  rw [List.mapM_map] at hfields
  rw [JoinDefinition.columns?, hsecond]
  exact mapM_some_of_ok (fun _ _ hf => column_of_selectField hf) hfields

/-- A join that takes fields by the names of its definition: those that form the
second identity, and those that it adds. -/
structure Follows (j : Join) (definition : JoinDefinition) (first second : Table) : Prop where
  /-- The key positions are those of the key names. -/
  keys_eq : j.keyPositions.map (first.fields[·]?) = (first.select definition.keyValues).map some
  /-- Whether the second identity needs a payload is told by the key names. -/
  reads_eq : j.keyReadsPayload = definition.keyValues.any fun name => !first.isKey name
  /-- The positions of the added fields are those of their names. -/
  fields_eq : (j.fields.map (·.position)).map (second.fields[·]?) =
    (second.select (definition.fields.map (·.name))).map some
  /-- The added fields have their types. -/
  types_eq : j.fields.map (·.type) =
    (second.select (definition.fields.map (·.name))).map (·.type)

/-- A checked join takes its fields by name. -/
theorem follows_of_compile (hsecond : second.Sound) {definition : JoinDefinition}
    (h : compile first second definition.keyValues
      (definition.fields.map fun f => (f.name, f.newName)) = .ok j) :
    j.Follows definition first second := by
  obtain ⟨hlen, hpositions, hfields, -, hreads⟩ := compile_eq_ok h
  have hnames : (definition.fields.map fun f => (f.name, f.newName)).map Prod.fst =
      definition.fields.map (·.name) := List.map_map
  obtain ⟨hplaces, htypes⟩ := selectFields_select hfields
  rw [hnames] at hplaces htypes
  rw [← Table.length_keyTypes hsecond] at hlen
  exact ⟨(keyPositions?_select hlen hpositions).1, hreads, hplaces, htypes⟩

end Join

namespace PreparedQuery

variable {c : Catalog} {q : PreparedQuery}

/-- A query that is prepared has the columns that its definition says. -/
theorem columns_of_compile {definition : QueryDefinition} (h : compile c definition = .ok q) :
    ∃ i t, c.indexes.get? definition.index = some i ∧ c.tables.get? i.table = some t ∧
      q.table = t.name ∧
      definition.columns? c = some (t.columns ++ (q.join.map Join.columns).getD []) ∧
      q.columns = (t.columns ++ (q.join.map Join.columns).getD []).map Prod.fst := by
  obtain ⟨i, t, hi, ht, hjoin, -, hq⟩ := compile_eq_ok.mp h
  refine ⟨i, t, hi, ht, by rw [hq], ?_, ?_⟩
  · rw [QueryDefinition.columns?, hi]
    dsimp only [bind, Option.bind]
    rw [ht]
    generalize definition.join = joined, q.join = join at hjoin ⊢
    cases hjoin with
    | none => simp [pure]
    | some hj =>
      dsimp only
      rw [Join.columns_of_compileJoin hj]
      rfl
  · rw [hq]
    cases q.join <;>
      simp [Table.columns, Table.fieldNames, Join.columns, Join.labels, Function.comp_def]

end PreparedQuery

/-- The labels and types of the columns that a source shows. -/
def RangeSource.columns (source : RangeSource) : List (String × ScalarType) :=
  source.store.table.columns ++ (source.join.map fun join => join.join.columns).getD []

/-- What a query reads, told by its definition and a catalog. -/
structure QueryDefinition.Reads (q : QueryDefinition) (c : Catalog) (source : RangeSource) :
    Prop where
  /-- The store is that of the table of the index, and the layout is what the index
  compiles to. -/
  index : ∃ i, c.index q.index = .ok i ∧ c.table i.table = .ok source.store.table ∧
    i.compile source.store.table = .ok source.layout
  /-- There is a join if there is one in the definition. Its store is that of the
  second table, and it takes the fields that are named there. -/
  join : Option.Rel (fun j join => c.table j.table = .ok join.second.table ∧
    join.join.Follows j source.store.table join.second.table) q.join source.join
  /-- The columns are those of the definition. -/
  columns_eq : q.columns? c = some source.columns

namespace Database

variable {db : Database} {q : PreparedQuery}

/-- A join is read with the store of its table. -/
theorem joinSource_eq_ok {prepared : Option Join} {join : Option JoinSource}
    (h : db.joinSource prepared = .ok join) : join.map (·.join) = prepared ∧
      ∀ j, join = some j → db.stores.get? j.join.table = some j.second := by
  cases prepared with
  | none =>
    cases h
    exact ⟨rfl, nofun⟩
  | some j =>
    obtain ⟨second, hsecond, rfl⟩ := map_eq_ok.mp h
    refine ⟨rfl, fun j' hj => ?_⟩
    obtain rfl := Option.some.inj hj
    exact store_eq_ok.mp hsecond

/-- What a query reads are a store of the session, a layout that it has, and the
join that was prepared with the store of its table. -/
theorem rangeSource_eq_ok {source : RangeSource} (h : db.rangeSource q = .ok source) :
    db.stores.get? q.table = some source.store ∧
      source.store.layouts.get? q.definition.index = some source.layout ∧
      source.join.map (·.join) = q.join ∧
      ∀ join, source.join = some join → db.stores.get? join.join.table = some join.second := by
  obtain ⟨store, hstore, h⟩ := bind_eq_ok.mp h
  obtain ⟨layout, hlayout, h⟩ := bind_eq_ok.mp h
  obtain ⟨join, hjoin, h⟩ := bind_eq_ok.mp h
  cases h
  exact ⟨store_eq_ok.mp hstore, layout_eq_ok.mp hlayout, joinSource_eq_ok hjoin⟩

/-- What a prepared query reads is what its definition and the catalog tell. -/
theorem Opened.reads_of_rangeSource (h : db.Opened)
    (hcompiled : PreparedQuery.compile db.catalog q.definition = .ok q) {source : RangeSource}
    (hsource : db.rangeSource q = .ok source) :
    q.definition.Reads db.catalog source ∧ q.columns = source.columns.map Prod.fst := by
  obtain ⟨hstore, hlayout, hprepared, hseconds⟩ := rangeSource_eq_ok hsource
  obtain ⟨i, t, hi, ht, -, hcolumns, hlabels⟩ := PreparedQuery.columns_of_compile hcompiled
  obtain ⟨hname, hindex⟩ := h.compile_eq_ok hstore hlayout hi
  have hknown := h.store_table hstore
  rw [← hname, ht] at hknown
  obtain rfl := Option.some.inj hknown
  have hsame : source.columns =
      source.store.table.columns ++ (q.join.map Join.columns).getD [] := by
    rw [RangeSource.columns, ← hprepared, Option.map_map]
    rfl
  refine ⟨⟨⟨i, Catalog.index_eq_ok.mpr hi, Catalog.table_eq_ok.mpr ht, hindex⟩, ?_,
    hsame ▸ hcolumns⟩, hsame ▸ hlabels⟩
  obtain ⟨i', t', hi', ht', hjoin, -⟩ := PreparedQuery.compile_eq_ok.mp hcompiled
  obtain rfl := Option.some.inj (hi.symm.trans hi')
  obtain rfl := Option.some.inj (ht.symm.trans ht')
  rw [← hprepared] at hjoin
  generalize q.definition.join = definition, source.join = join at hjoin hseconds ⊢
  cases join with
  | none =>
    cases hjoin
    exact .none
  | some join =>
    rw [Option.map_some] at hjoin
    cases hjoin with
    | some hj =>
      obtain ⟨second, hsecond, hj⟩ := PreparedQuery.compileJoin_eq_ok.mp hj
      have hsound := h.catalog.table_sound hsecond
      have hfound := h.store_table (hseconds join rfl)
      rw [(Join.reads_of_compile hsound hj).table_eq, h.catalog.table_name hsecond,
        hsecond] at hfound
      obtain rfl := Option.some.inj hfound
      exact .some ⟨Catalog.table_eq_ok.mpr hsecond, Join.follows_of_compile hsound hj⟩

theorem queries_registerIndex (db : Database) (i : Index) :
    (db.registerIndex i).1.queries = db.queries := by
  rw [registerIndex]
  split
  · rfl
  · dsimp only
    split
    · rfl
    · split <;> rfl

theorem queries_registerTable {t : Table} {db' : Database} {s : FactStore}
    (h : db.registerTable t = .ok (db', s)) : db'.queries = db.queries := by
  obtain ⟨catalog, -, ⟨-, rfl⟩ | ⟨-, rfl⟩⟩ := registerTable_eq_ok h <;> rfl

/-- Whether each installed query is what its definition compiles to. -/
def Prepared (db : Database) : Prop :=
  ∀ name q, db.queries.get? name = some q →
    q.definition.name = name ∧ PreparedQuery.compile db.catalog q.definition = .ok q

theorem prepared_ofDirectory (d : Directory) : (ofDirectory d).Prepared := by
  simp [Prepared, ofDirectory]

theorem prepared_empty : (ofDirectory .empty).Prepared := prepared_ofDirectory .empty

namespace Prepared

/-- Queries stay prepared while the catalog grows. -/
theorem of_extends {db' : Database} (h : db.Prepared) (hqueries : db'.queries = db.queries)
    (hextends : db.catalog.Extends db'.catalog) : db'.Prepared := by
  intro name q hq
  rw [hqueries] at hq
  obtain ⟨hname, hcompiled⟩ := h name q hq
  exact ⟨hname, PreparedQuery.compile_mono hextends hcompiled⟩

/-- What is installed is prepared. -/
theorem install (h : db.Prepared) (definitions : List QueryDefinition) :
    (db.install definitions).1.Prepared := by
  rw [Database.install]
  cases hr : Registry.prepare db.catalog definitions with
  | error e => exact h
  | ok r =>
    intro name q hq
    refine Registry.forall_of_prepare (P := fun name q => q.definition.name = name ∧
      PreparedQuery.compile db.catalog q.definition = .ok q) (fun {definition q} hq => ?_) hr hq
    rw [PreparedQuery.definition_of_compile hq]
    exact ⟨rfl, hq⟩

/-- Every run keeps the queries prepared. -/
theorem run (h : db.Prepared) (calls : List DatabaseCall) : (db.run calls).Prepared :=
  run_induction (P := Prepared)
    (fun h ht => h.of_extends (queries_registerTable ht) (extends_registerTable ht))
    (fun i h => h.of_extends (queries_registerIndex _ i) (extends_registerIndex _ i))
    (fun definitions h => h.install definitions) (fun _ h => h) h calls

end Prepared

/-- An installed query reads a source that is ready, and that is what its
definition and the catalog tell. -/
theorem InOrder.exists_reads (h : db.InOrder) (hprepared : db.Prepared) {name : String}
    (hq : db.queries.find name = .ok q) :
    ∃ source, db.rangeSource q = .ok source ∧ source.Ready db.directory ∧
      q.definition.Reads db.catalog source ∧ q.columns = source.columns.map Prod.fst := by
  obtain ⟨source, hsource, hready⟩ := h.exists_source hq
  have hcompiled := (hprepared name q (Registry.find_eq_ok.mp hq)).2
  exact ⟨source, hsource, hready, h.opened.reads_of_rangeSource hcompiled hsource⟩

end Database
end Chronicle
