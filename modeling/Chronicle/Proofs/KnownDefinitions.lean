import Chronicle.Proofs.CatalogRuns
import Chronicle.Proofs.Reopening

/-!
# Known definitions

A table or an index that is known may be registered once more, and nothing
changes: its definition is in the catalog, its store is there, and its index is
built. So the load of a configuration whose tables and indexes are known does
no more than to install its queries.
-/

namespace Chronicle

open FactStore

namespace Catalog

variable {c : Catalog}

/-- A table that is known can be added again. -/
theorem addTable_of_known (hc : c.Sound) {t : Table} (ht : c.tables.get? t.name = some t) :
    c.addTable t = .ok c := by
  have hstored : c.Stores (.table t) := ht
  have hvalid := Table.validate_eq_ok.mpr (hc.table_sound ht)
  have hname (known : Table) (hknown : c.tables.get? t.name = some known) : known = t :=
    Option.some.inj (hknown.symm.trans ht)
  obtain ⟨-, hadd⟩ | ⟨hnot, -⟩ := c.addTable_cases t
  · rw [hadd, storing_of_stores hstored]
  · exact absurd ⟨hvalid, hname⟩ hnot

/-- An index that is known can be added again. -/
theorem addIndex_of_knows (hc : c.Sound) {i : Index} (hi : c.Knows i) :
    ∃ l, c.addIndex i = .ok (l, c) := by
  obtain ⟨t, l, ht, hl⟩ := hc.index_compiles hi
  have hstored : c.Stores (.index i) := hi
  have hname (known : Index) (hknown : c.indexes.get? i.name = some known) : known = i :=
    Option.some.inj (hknown.symm.trans hi)
  obtain ⟨-, l, hadd⟩ | ⟨hnot, -⟩ := c.addIndex_cases i
  · exact ⟨l, by rw [hadd, storing_of_stores hstored]⟩
  · exact absurd ⟨⟨t, l, ht, hl⟩, hname⟩ hnot

end Catalog

namespace Database

variable {db : Database} {c : Configuration}

namespace InOrder

/-- A table that is known is registered already. -/
theorem registerTable_of_known (h : db.InOrder) {t : Table}
    (ht : db.catalog.tables.get? t.name = some t) : ∃ s, db.registerTable t = .ok (db, s) := by
  obtain ⟨s, hs⟩ := h.table_store ht
  refine ⟨s, ?_⟩
  rw [Database.registerTable, Catalog.addTable_of_known h.catalog ht]
  dsimp only [bind, Except.bind]
  rw [hs]
  rfl

/-- An index that is known is registered and built already. -/
theorem registerIndex_of_knows (h : db.InOrder) {i : Index} (hi : db.catalog.Knows i) :
    ∃ l, db.registerIndex i = (db, .ok l) := by
  obtain ⟨l, hc⟩ := Catalog.addIndex_of_knows h.catalog hi
  obtain ⟨s, l', hs, hl, hcompiled, hsound, -⟩ := h.exists_layout (Catalog.index_eq_ok.mpr hi)
  refine ⟨l', ?_⟩
  rw [Database.registerIndex, hc]
  dsimp only
  rw [store_eq_ok.mpr hs]
  dsimp only
  rw [registerIndex_of_built hsound.table hcompiled (h.built i hi)]
  dsimp only
  rw [SortedMap.insert_of_get? hl, SortedMap.insert_of_get? hs]

theorem registerTables_of_known (h : db.InOrder) {tables : List Table}
    (htables : ∀ t ∈ tables, db.catalog.tables.get? t.name = some t) :
    db.registerTables tables = (db, .ok ()) := by
  induction tables with
  | nil => rfl
  | cons t tables ih =>
    obtain ⟨ht, htables⟩ := List.forall_mem_cons.mp htables
    obtain ⟨s, hs⟩ := h.registerTable_of_known ht
    rw [registerTables, hs]
    exact ih htables

theorem registerIndexes_of_knows (h : db.InOrder) {indexes : List Index}
    (hindexes : ∀ i ∈ indexes, db.catalog.Knows i) :
    db.registerIndexes indexes = (db, .ok ()) := by
  induction indexes with
  | nil => rfl
  | cons i indexes ih =>
    obtain ⟨hi, hindexes⟩ := List.forall_mem_cons.mp hindexes
    obtain ⟨l, hl⟩ := h.registerIndex_of_knows hi
    rw [registerIndexes, hl]
    exact ih hindexes

/-- A configuration whose tables and indexes are known has its queries installed. -/
theorem loadConfiguration_eq_install (h : db.InOrder)
    (htables : ∀ t ∈ c.tables, db.catalog.tables.get? t.name = some t)
    (hindexes : ∀ i ∈ c.indexes, db.catalog.Knows i) :
    db.loadConfiguration c = db.install c.queries := by
  rw [Database.loadConfiguration, h.registerTables_of_known htables]
  dsimp only
  rw [h.registerIndexes_of_knows hindexes]

/-- A configuration whose definitions are known and whose queries are installed
is loaded already. -/
theorem loadConfiguration_of_known (h : db.InOrder)
    (htables : ∀ t ∈ c.tables, db.catalog.tables.get? t.name = some t)
    (hindexes : ∀ i ∈ c.indexes, db.catalog.Knows i)
    (hqueries : Registry.prepare db.catalog c.queries = .ok db.queries) :
    db.loadConfiguration c = (db, .ok ()) := by
  rw [h.loadConfiguration_eq_install htables hindexes, Database.install, hqueries]

end InOrder

end Database
end Chronicle
