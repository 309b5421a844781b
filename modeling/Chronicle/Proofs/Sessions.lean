import Chronicle.Proofs.DatabaseRuns

/-!
# Sessions

A session may start on a directory that holds anything. What it knows is in
order all the same: each store is that of a table of the catalog, and each
registered layout was compiled from an index of the catalog. A call that works
on one table changes the facts of that table, the trees of its indexes and its
store, and nothing else but the head block.
-/

namespace Chronicle

open FactStore

/-- The table that a call works on. Other calls work on none or on several. -/
def DatabaseCall.table? : DatabaseCall → Option String
  | .registerIndex i => some i.table
  | .append table _ => some table
  | .appendToStore table _ => some table
  | .rebuildIndex table _ => some table
  | _ => none

namespace Database

variable {db : Database}

/-- An index that is added to the catalog is registered with the store of its
table. If its build fails the store does not have it. -/
theorem registerIndex_of_store {i : Index} {l : Layout} {catalog : Catalog} {s : FactStore}
    (hc : db.catalog.addIndex i = .ok (l, catalog)) (hs : db.stores.get? i.table = some s) :
    (db.registerIndex i).1 = ⟨(s.registerIndex db.directory i).1, catalog, db.stores, db.queries⟩ ∨
      ∃ s' l', (s.registerIndex db.directory i).2 = .ok (s', l') ∧
        (db.registerIndex i).1 = ⟨(s.registerIndex db.directory i).1, catalog,
          db.stores.insert i.table s', db.queries⟩ := by
  have hstore : ({ db with catalog } : Database).store i.table = .ok s := store_eq_ok.mpr hs
  rw [registerIndex, hc]
  dsimp only
  rw [hstore]
  dsimp only
  cases hr : s.registerIndex db.directory i with
  | mk d r =>
    cases r with
    | error e => exact .inl rfl
    | ok result => exact .inr ⟨result.1, result.2, rfl, rfl⟩

/-- A database whose stores are in order, whatever its directory holds. -/
structure Opened (db : Database) : Prop where
  /-- The catalog holds checked definitions. -/
  catalog : db.catalog.Sound
  /-- Each store is that of a table of the catalog. -/
  store_table : ∀ {name s}, db.stores.get? name = some s →
    db.catalog.tables.get? name = some s.table
  /-- Each table of the catalog has a store. -/
  table_store : ∀ {name t}, db.catalog.tables.get? name = some t →
    ∃ s, db.stores.get? name = some s
  /-- Each store is in order. -/
  sound : ∀ {name s}, db.stores.get? name = some s → s.Sound
  /-- Each layout comes from an index of the catalog. -/
  defined : ∀ {name s index l}, db.stores.get? name = some s → s.layouts.get? index = some l →
    ∃ i, db.catalog.Knows i ∧ i.table = name ∧ i.compile s.table = .ok l

/-- A database in order is so whatever its directory holds. -/
theorem InOrder.opened (h : db.InOrder) : db.Opened := by
  refine ⟨h.catalog, h.store_table, h.table_store, fun hs => (h.keeps hs).sound,
    fun {name s index l} hs hl => ?_⟩
  obtain ⟨i, hi, -, hcompiled⟩ := (h.keeps hs).defined hl
  obtain ⟨-, htable, -⟩ := Index.reads_of_compile (h.keeps hs).sound.table hcompiled
  exact ⟨i, hi, htable.trans (h.table_name hs), hcompiled⟩

namespace Opened

/-- A new session is in order on any directory. -/
theorem ofDirectory (d : Directory) : (Database.ofDirectory d).Opened :=
  ⟨Catalog.sound_empty, by simp [Database.ofDirectory],
    by simp [Database.ofDirectory, Catalog.empty], by simp [Database.ofDirectory],
    by simp [Database.ofDirectory]⟩

theorem withDirectory (h : db.Opened) (d : Directory) :
    ({ db with directory := d } : Database).Opened :=
  ⟨h.catalog, h.store_table, h.table_store, h.sound, h.defined⟩

theorem install (h : db.Opened) (queries : List QueryDefinition) :
    (db.install queries).1.Opened := by
  rw [Database.install]
  cases Registry.prepare db.catalog queries with
  | error e => exact h
  | ok r => exact ⟨h.catalog, h.store_table, h.table_store, h.sound, h.defined⟩

theorem registerTable (h : db.Opened) {t : Table} {db' : Database} {s : FactStore}
    (hdb : db.registerTable t = .ok (db', s)) : db'.Opened := by
  obtain ⟨catalog, hc, hdb⟩ := registerTable_eq_ok hdb
  have hextends := Catalog.extends_of_addTable hc
  have hdefined : ∀ {name s index l}, db.stores.get? name = some s →
      s.layouts.get? index = some l → ∃ i, catalog.Knows i ∧ i.table = name ∧
        i.compile s.table = .ok l := fun hs hl =>
    (h.defined hs hl).imp fun i hi => ⟨hextends.knows hi.1, hi.2⟩
  obtain ⟨ht, hcatalog⟩ := Catalog.addTable_eq_ok hc
  have htables : ∀ {name t'}, catalog.tables.get? name = some t' →
      name = t.name ∧ t' = t ∨ db.catalog.tables.get? name = some t' := by
    intro name t' ht'
    obtain ⟨-, rfl⟩ | ⟨-, rfl⟩ := hcatalog
    · exact (SortedMap.get?_insert_eq_some.mp ht').imp_right And.right
    · exact .inr ht'
  have hknown : catalog.tables.get? t.name = some t := by
    obtain ⟨-, rfl⟩ | ⟨hknown, rfl⟩ := hcatalog
    · exact SortedMap.get?_insert_self ..
    · exact hknown
  obtain ⟨-, rfl⟩ | ⟨hold, rfl⟩ := hdb
  · refine ⟨h.catalog.addTable hc, fun hs => ?_, fun {name t'} ht' => ?_, fun hs => ?_,
      fun hs hl => ?_⟩
    · obtain ⟨rfl, rfl⟩ | ⟨-, hs⟩ := SortedMap.get?_insert_eq_some.mp hs
      · exact hknown
      · exact hextends.table (h.store_table hs)
    · by_cases hname : name = t.name
      · exact ⟨_, SortedMap.get?_insert_eq_some.mpr (.inl ⟨hname, rfl⟩)⟩
      · obtain ⟨s', hs'⟩ := h.table_store ((htables ht').resolve_left fun he => hname he.1)
        exact ⟨s', SortedMap.get?_insert_eq_some.mpr (.inr ⟨hname, hs'⟩)⟩
    · obtain ⟨-, rfl⟩ | ⟨-, hs⟩ := SortedMap.get?_insert_eq_some.mp hs
      · exact sound_of_ofTable (ofTable_eq_ok.mpr ⟨ht, rfl⟩)
      · exact h.sound hs
    · obtain ⟨-, rfl⟩ | ⟨-, hs⟩ := SortedMap.get?_insert_eq_some.mp hs
      · simp at hl
      · exact hdefined hs hl
  · refine ⟨h.catalog.addTable hc, fun hs => hextends.table (h.store_table hs),
      fun {name t'} ht' => ?_, h.sound, hdefined⟩
    obtain ⟨rfl, -⟩ | ht' := htables ht'
    · exact ⟨s, hold⟩
    · exact h.table_store ht'

theorem registerIndex (h : db.Opened) (i : Index) : (db.registerIndex i).1.Opened := by
  cases hc : db.catalog.addIndex i with
  | error e =>
    rw [registerIndex_of_error hc]
    exact h
  | ok result =>
    obtain ⟨l, catalog⟩ := result
    have hextends := Catalog.extends_of_addIndex hc
    have htables := Catalog.tables_of_addIndex hc
    obtain ⟨⟨t, ht, hl⟩, -⟩ := Catalog.addIndex_eq_ok hc
    obtain ⟨s, hs⟩ := h.table_store ht
    rw [h.store_table hs] at ht
    obtain rfl := Option.some.inj ht
    have hdefined : ∀ {name s index l}, db.stores.get? name = some s →
        s.layouts.get? index = some l → ∃ i, catalog.Knows i ∧ i.table = name ∧
          i.compile s.table = .ok l := fun hs hl =>
      (h.defined hs hl).imp fun i hi => ⟨hextends.knows hi.1, hi.2⟩
    obtain hcall | ⟨s', l', hok, hcall⟩ := registerIndex_of_store hc hs
    · rw [hcall]
      exact ⟨h.catalog.addIndex hc, fun hs => hextends.table (h.store_table hs),
        fun ht => h.table_store (htables ▸ ht), h.sound, hdefined⟩
    · obtain ⟨rfl, -⟩ := (registerIndex_frame hl).2 s' l' hok
      obtain ⟨hname, -, hreads⟩ := Index.reads_of_compile (h.sound hs).table hl
      have htable := hextends.table (h.store_table hs)
      rw [hcall]
      refine ⟨h.catalog.addIndex hc, fun {name s'} hs' => ?_, fun {name t'} ht' => ?_,
        fun {name s'} hs' => ?_, fun {name s' index l'} hs' hl' => ?_⟩
      · obtain ⟨rfl, rfl⟩ | ⟨-, hs'⟩ := SortedMap.get?_insert_eq_some.mp hs'
        · exact htable
        · exact hextends.table (h.store_table hs')
      · by_cases hname : name = i.table
        · exact ⟨_, SortedMap.get?_insert_eq_some.mpr (.inl ⟨hname, rfl⟩)⟩
        · obtain ⟨s', hs'⟩ := h.table_store (htables ▸ ht')
          exact ⟨s', SortedMap.get?_insert_eq_some.mpr (.inr ⟨hname, hs'⟩)⟩
      · obtain ⟨-, rfl⟩ | ⟨-, hs'⟩ := SortedMap.get?_insert_eq_some.mp hs'
        · exact hname ▸ (h.sound hs).insert hreads
        · exact h.sound hs'
      · obtain ⟨rfl, rfl⟩ | ⟨-, hs'⟩ := SortedMap.get?_insert_eq_some.mp hs'
        · obtain ⟨-, rfl⟩ | ⟨-, hl'⟩ := SortedMap.get?_insert_eq_some.mp hl'
          · exact ⟨i, Catalog.knows_of_addIndex hc, rfl, hl⟩
          · obtain ⟨j, hj⟩ := hdefined hs hl'
            exact ⟨j, hj⟩
        · exact hdefined hs' hl'

/-- Every call keeps the stores of a session in order. -/
theorem call (h : db.Opened) (c : DatabaseCall) : (db.call c).Opened :=
  call_induction (fun h ht => h.registerTable ht) (fun i h => h.registerIndex i)
    (fun definitions h => h.install definitions) (fun d h => h.withDirectory d) h c

/-- Every run keeps the stores of a session in order. -/
theorem run (h : db.Opened) (calls : List DatabaseCall) : (db.run calls).Opened :=
  run_induction (fun h ht => h.registerTable ht) (fun i h => h.registerIndex i)
    (fun definitions h => h.install definitions) (fun d h => h.withDirectory d) h calls

theorem table_name (h : db.Opened) {name : String} {s : FactStore}
    (hs : db.stores.get? name = some s) : s.table.name = name :=
  h.catalog.table_name (h.store_table hs)

/-- The tree of a registered layout is that of an index of its table. -/
theorem exists_treeName (h : db.Opened) {name index : String} {s : FactStore} {l : Layout}
    (hs : db.stores.get? name = some s) (hl : s.layouts.get? index = some l) :
    ∃ i, db.catalog.Knows i ∧ i.table = name ∧ i.treeName = l.treeName := by
  obtain ⟨i, hi, htable, hcompiled⟩ := h.defined hs hl
  exact ⟨i, hi, htable, (Index.treeName_eq (h.sound hs).table hcompiled).symm⟩

/-- A layout that is registered under the name of an index of the catalog is what
the index compiles to. -/
theorem compile_eq_ok (h : db.Opened) {table name : String} {s : FactStore} {l : Layout}
    {i : Index} (hs : db.stores.get? table = some s) (hl : s.layouts.get? name = some l)
    (hi : db.catalog.indexes.get? name = some i) :
    i.table = table ∧ i.compile s.table = .ok l := by
  obtain ⟨j, hj, htable, hcompiled⟩ := h.defined hs hl
  obtain ⟨hjname, -, -⟩ := Index.reads_of_compile (h.sound hs).table hcompiled
  have hname := h.catalog.index_name hi
  have hsame : j.name = i.name := hjname.symm.trans (((h.sound hs).name_eq hl).trans hname.symm)
  rw [← hname] at hi
  obtain rfl := Catalog.eq_of_name_eq hj hi hsame
  exact ⟨htable, hcompiled⟩

/-- A change of the facts of a table, of the trees of its indexes and of its
store. -/
structure Frame (db db' : Database) (table : String) : Prop where
  /-- The facts of the other tables are the same. -/
  factTree_eq : ∀ other, other ≠ table →
    db'.directory.factTree other = db.directory.factTree other
  /-- The trees of no index of the table are the same. -/
  indexTree_eq : ∀ name, (∀ i, db'.catalog.Knows i → i.table = table → i.treeName ≠ name) →
    db'.directory.indexTree name = db.directory.indexTree name
  /-- The other stores are the same. -/
  store_eq : ∀ other, other ≠ table → db'.stores.get? other = db.stores.get? other

theorem Frame.refl {table : String} : Frame db db table :=
  ⟨fun _ _ => rfl, fun _ _ => rfl, fun _ _ => rfl⟩

/-- Using the store of a table changes what belongs to the table. -/
theorem frame_withDirectory (h : db.Opened) {table : String} {s : FactStore}
    (hs : db.stores.get? table = some s) {d : Directory}
    (hfacts : ∀ other, other ≠ s.table.name → d.factTree other = db.directory.factTree other)
    (htrees : ∀ name, (∀ l ∈ s.layouts.values, name ≠ l.treeName) →
      d.indexTree name = db.directory.indexTree name) :
    Frame db { db with directory := d } table := by
  refine ⟨h.table_name hs ▸ hfacts, fun name hname => htrees name fun l hl he => ?_, fun _ _ => rfl⟩
  obtain ⟨index, hl⟩ := mem_values_iff.mp hl
  obtain ⟨i, hi, htable, htree⟩ := h.exists_treeName hs hl
  exact hname i hi htable (htree.trans he.symm)

theorem frame_appendToStore (h : db.Opened) {table : String} {s : FactStore}
    (hs : db.stores.get? table = some s) (f : Fact) :
    Frame db { db with directory := (s.append db.directory f).1 } table := by
  obtain ⟨hfacts, htrees, -⟩ := append_frame s db.directory f
  exact h.frame_withDirectory hs hfacts htrees

theorem frame_append (h : db.Opened) (table : String) (f : Fact) :
    Frame db (db.append table f).1 table := by
  rw [Database.append]
  cases hs : db.store table with
  | error e => exact .refl
  | ok s =>
    have hframe := h.frame_appendToStore (store_eq_ok.mp hs) f
    dsimp only
    cases hr : s.append db.directory f with
    | mk d r =>
      rw [hr] at hframe
      cases r with
      | error e => exact hframe
      | ok outcome => exact ⟨hframe.factTree_eq, hframe.indexTree_eq, hframe.store_eq⟩

theorem frame_rebuildIndex (h : db.Opened) {table : String} {s : FactStore}
    (hs : db.stores.get? table = some s) (index : String) :
    Frame db { db with directory := (s.rebuildIndex db.directory index).1 } table := by
  cases hl : s.layouts.get? index with
  | none =>
    rw [rebuildIndex_of_none hl]
    exact .refl
  | some l =>
    have hframe := rebuildIndex_frame (d := db.directory) hl
    exact h.frame_withDirectory hs (fun other _ => hframe.factTree_eq other) fun name hname =>
      hframe.indexTree_eq name (hname l (mem_values_iff.mpr ⟨index, hl⟩))

theorem frame_registerIndex (h : db.Opened) (i : Index) :
    Frame db (db.registerIndex i).1 i.table := by
  cases hc : db.catalog.addIndex i with
  | error e =>
    rw [registerIndex_of_error hc]
    exact .refl
  | ok result =>
    obtain ⟨l, catalog⟩ := result
    obtain ⟨⟨t, ht, hl⟩, -⟩ := Catalog.addIndex_eq_ok hc
    obtain ⟨s, hs⟩ := h.table_store ht
    rw [h.store_table hs] at ht
    obtain rfl := Option.some.inj ht
    obtain ⟨hframe, -⟩ := registerIndex_frame (d := db.directory) hl
    rw [Index.treeName_eq (h.sound hs).table hl] at hframe
    have hknows := Catalog.knows_of_addIndex hc
    obtain hcall | ⟨s', -, -, hcall⟩ := registerIndex_of_store hc hs
    · rw [hcall]
      exact ⟨fun other _ => hframe.factTree_eq other, fun name hname =>
        hframe.indexTree_eq name (hname i hknows rfl).symm, fun _ _ => rfl⟩
    · rw [hcall]
      exact ⟨fun other _ => hframe.factTree_eq other, fun name hname =>
        hframe.indexTree_eq name (hname i hknows rfl).symm, fun _ hne =>
        SortedMap.get?_insert_of_ne hne s'⟩

/-- A call that works on a table changes what belongs to the table. -/
theorem frame_call (h : db.Opened) {c : DatabaseCall} {table : String}
    (hc : c.table? = some table) : Frame db (db.call c) table := by
  cases c with
  | registerIndex i =>
    cases hc
    exact h.frame_registerIndex i
  | append _ f =>
    cases hc
    exact h.frame_append table f
  | appendToStore _ f =>
    cases hc
    rw [Database.call]
    cases hs : db.store table with
    | error e => exact .refl
    | ok s => exact h.frame_appendToStore (store_eq_ok.mp hs) f
  | rebuildIndex _ index =>
    cases hc
    rw [Database.call]
    cases hs : db.store table with
    | error e => exact .refl
    | ok s => exact h.frame_rebuildIndex (store_eq_ok.mp hs) index
  | registerTable t => cases hc
  | load c => cases hc
  | setHeadBlock block => cases hc

end Opened

end Database
end Chronicle
