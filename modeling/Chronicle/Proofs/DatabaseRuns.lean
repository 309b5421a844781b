import Chronicle.Database
import Chronicle.Proofs.Catalogs
import Chronicle.Proofs.VisibleRanges

/-!
# Runs of a database

A session starts on a new directory and goes on by calls: definitions are
registered, configurations loaded, facts appended and the head block set, with
any results. As long as no two indexes share a tree, every call leaves the
database in order: each store keeps the stored history of its table, with all
indexes of the catalog registered and complete, and each installed query fits
the catalog.
-/

namespace Chronicle

open FactStore

/-- A call on a database. -/
inductive DatabaseCall where
  /-- Register a table. -/
  | registerTable (table : Table)
  /-- Register an index. -/
  | registerIndex (index : Index)
  /-- Load a configuration. -/
  | load (configuration : Configuration)
  /-- Append a fact to a table. -/
  | append (table : String) (fact : Fact)
  /-- Set the head block. -/
  | setHeadBlock (block : UInt64)
  /-- Append a fact to the store of a table, which leaves the head block. -/
  | appendToStore (table : String) (fact : Fact)
  /-- Build an index of the store of a table anew. -/
  | rebuildIndex (table index : String)

namespace Database

/-- What a call leaves. -/
def call (db : Database) : DatabaseCall → Database
  | .registerTable t =>
    match db.registerTable t with
    | .ok (db, _) => db
    | .error _ => db
  | .registerIndex i => (db.registerIndex i).1
  | .load c => (db.loadConfiguration c).1
  | .append table f => (db.append table f).1
  | .setHeadBlock block => db.setHeadBlock block
  | .appendToStore table f =>
    match db.store table with
    | .ok s => { db with directory := (s.append db.directory f).1 }
    | .error _ => db
  | .rebuildIndex table index =>
    match db.store table with
    | .ok s => { db with directory := (s.rebuildIndex db.directory index).1 }
    | .error _ => db

/-- What some calls leave. -/
def run (db : Database) (calls : List DatabaseCall) : Database := calls.foldl call db

variable {db : Database}

theorem store_eq_ok {name : String} {s : FactStore} :
    db.store name = .ok s ↔ db.stores.get? name = some s := by
  rw [store]
  cases db.stores.get? name <;> simp

/-- A table that the catalog accepts is registered, and nothing is stored. -/
theorem registerTable_of_ok {t : Table} {catalog : Catalog}
    (hc : db.catalog.addTable t = .ok catalog) :
    ∃ db' s, db.registerTable t = .ok (db', s) ∧ db'.catalog = catalog ∧
      db'.directory = db.directory := by
  have ht := (Catalog.addTable_eq_ok hc).1
  rw [registerTable, hc]
  dsimp only [bind, Except.bind]
  cases db.stores.get? t.name with
  | none =>
    rw [ofTable_eq_ok.mpr ⟨ht, rfl⟩]
    exact ⟨_, _, rfl, rfl, rfl⟩
  | some s => exact ⟨_, s, rfl, rfl, rfl⟩

/-- A table that the catalog refuses is not registered. -/
theorem registerTable_of_error {t : Table} {e : Error} (hc : db.catalog.addTable t = .error e) :
    db.registerTable t = .error e := by
  rw [registerTable, hc]
  rfl

/-- A table is added to the catalog, and has a store that is new or was there
before. -/
theorem registerTable_eq_ok {t : Table} {db' : Database} {s : FactStore}
    (h : db.registerTable t = .ok (db', s)) :
    ∃ catalog, db.catalog.addTable t = .ok catalog ∧
      (db.stores.get? t.name = none ∧
          db' = { db with catalog, stores := db.stores.insert t.name ⟨t, .empty⟩ } ∨
        db.stores.get? t.name = some s ∧ db' = { db with catalog }) := by
  rw [registerTable] at h
  cases hc : db.catalog.addTable t with
  | error e => simp [hc, bind, Except.bind] at h
  | ok catalog =>
    have ht := (Catalog.addTable_eq_ok hc).1
    refine ⟨catalog, rfl, ?_⟩
    simp only [hc, bind, Except.bind] at h
    cases hs : db.stores.get? t.name with
    | none =>
      simp only [hs, ofTable_eq_ok.mpr ⟨ht, rfl⟩, pure, Except.pure, Except.ok.injEq,
        Prod.mk.injEq] at h
      exact .inl ⟨rfl, h.1.symm⟩
    | some s' =>
      simp only [hs, pure, Except.pure, Except.ok.injEq, Prod.mk.injEq] at h
      exact .inr ⟨congrArg some h.2, h.1.symm⟩

/-- A database in order. -/
structure InOrder (db : Database) : Prop where
  /-- The catalog holds checked definitions. -/
  catalog : db.catalog.Sound
  /-- Each store is that of a table of the catalog. -/
  store_table : ∀ {name s}, db.stores.get? name = some s →
    db.catalog.tables.get? name = some s.table
  /-- Each table of the catalog has a store. -/
  table_store : ∀ {name t}, db.catalog.tables.get? name = some t →
    ∃ s, db.stores.get? name = some s
  /-- Each store keeps the stored history of its table. -/
  keeps : ∀ {name s}, db.stores.get? name = some s →
    s.Keeps db.catalog.Knows db.directory (db.directory.history name)
  /-- Each index of the catalog is registered. -/
  registered : ∀ {name i}, db.catalog.indexes.get? name = some i →
    ∃ s l, db.stores.get? i.table = some s ∧ s.layouts.get? name = some l
  /-- A table without a store has no facts. -/
  unknown : ∀ {table}, db.stores.get? table = none → db.directory.factTree table = .empty
  /-- A tree of no index of the catalog has no entries. -/
  unregistered : ∀ {tree}, (∀ i, db.catalog.Knows i → i.treeName ≠ tree) →
    (db.directory.indexTree tree).isEmpty = true
  /-- Each installed query fits the catalog. -/
  queries : ∀ {name q}, db.queries.get? name = some q → q.Fits db.catalog

/-- A new session on a new directory is in order. -/
theorem inOrder_empty : (ofDirectory .empty).InOrder := by
  refine ⟨Catalog.sound_empty, ?_, ?_, ?_, ?_, fun _ => rfl, fun _ => rfl, ?_⟩ <;>
    simp [ofDirectory, Catalog.empty]

namespace InOrder

theorem table_name (h : db.InOrder) {name : String} {s : FactStore}
    (hs : db.stores.get? name = some s) : s.table.name = name :=
  h.catalog.table_name (h.store_table hs)

/-- A registered layout has the tree of an index of its table. -/
theorem exists_index (h : db.InOrder) {name index : String} {s : FactStore} {l : Layout}
    (hs : db.stores.get? name = some s) (hl : s.layouts.get? index = some l) :
    ∃ i, db.catalog.Knows i ∧ i.table = name ∧ i.treeName = l.treeName := by
  have hsound := (h.keeps hs).sound.table
  obtain ⟨i, hi, -, hcompiled⟩ := (h.keeps hs).defined hl
  obtain ⟨-, htable, -⟩ := Index.reads_of_compile hsound hcompiled
  exact ⟨i, hi, htable.trans (h.table_name hs), (Index.treeName_eq hsound hcompiled).symm⟩

/-- An index of the catalog is registered with the store of its table and
complete. -/
theorem exists_layout (h : db.InOrder) {index : String} {i : Index}
    (hi : db.catalog.index index = .ok i) :
    ∃ s l, db.stores.get? i.table = some s ∧ s.layouts.get? index = some l ∧
      i.compile s.table = .ok l ∧ s.Sound ∧
      (db.directory.history i.table).RecordedIn s.table (s.facts db.directory) ∧
      l.Places (db.directory.history i.table).Knows (db.directory.indexTree l.treeName) := by
  rw [Catalog.index_eq_ok] at hi
  have hname := h.catalog.index_name hi
  obtain ⟨s, l, hs, hl⟩ := h.registered hi
  have hkeeps := h.keeps hs
  obtain ⟨j, hj, hjname, hcompiled⟩ := hkeeps.defined hl
  rw [← hname] at hi
  obtain rfl := Catalog.eq_of_name_eq hj hi (hjname.trans hname.symm)
  exact ⟨s, l, hs, hl, hcompiled, hkeeps.sound, hkeeps.recorded, hkeeps.complete hl⟩

/-- The layouts of different tables have different trees. -/
theorem treeName_ne (h : db.InOrder) (hsep : db.catalog.Separate) {name other : String}
    (hne : other ≠ name) {s s' : FactStore} (hs : db.stores.get? name = some s)
    (hs' : db.stores.get? other = some s') {index index' : String} {l l' : Layout}
    (hl : s.layouts.get? index = some l) (hl' : s'.layouts.get? index' = some l') :
    l'.treeName ≠ l.treeName := by
  obtain ⟨i, hi, htable, htree⟩ := h.exists_index hs hl
  obtain ⟨i', hi', htable', htree'⟩ := h.exists_index hs' hl'
  intro he
  obtain rfl := hsep i' i hi' hi (by rw [htree', he, htree])
  exact hne (htable'.symm.trans htable)

/-- A change of the trees of one store that keeps its history keeps a database
in order. -/
theorem withDirectory (h : db.InOrder) (hsep : db.catalog.Separate) {name : String}
    {s : FactStore} (hs : db.stores.get? name = some s) {d : Directory}
    (hkeeps : s.Keeps db.catalog.Knows d (d.history name))
    (hfacts : ∀ other, other ≠ name → d.factTree other = db.directory.factTree other)
    (htrees : ∀ tree, (∀ l ∈ s.layouts.values, tree ≠ l.treeName) →
      d.indexTree tree = db.directory.indexTree tree) :
    ({ db with directory := d } : Database).InOrder := by
  refine ⟨h.catalog, h.store_table, h.table_store, fun {other s'} hs' => ?_, h.registered,
    fun {table} hnone => ?_, fun {tree} htree => ?_, h.queries⟩
  · by_cases hother : other = name
    · subst hother
      rw [show db.stores.get? other = some s' from hs'] at hs
      cases hs
      exact hkeeps
    · rw [Directory.history_congr (hfacts other hother)]
      refine (h.keeps hs').of_frame ?_ fun hl' => htrees _ fun l hl => ?_
      · rw [h.table_name hs', hfacts other hother]
      · obtain ⟨index, hl⟩ := mem_values_iff.mp hl
        exact h.treeName_ne hsep hother hs hs' hl hl'
  · have hne : table ≠ name := fun he => by
      rw [he, hs] at hnone
      cases hnone
    rw [hfacts table hne]
    exact h.unknown hnone
  · rw [htrees tree fun l hl => ?_]
    · exact h.unregistered htree
    · obtain ⟨index, hl⟩ := mem_values_iff.mp hl
      obtain ⟨i, hi, -, hname⟩ := h.exists_index hs hl
      exact fun he => htree i hi (hname.trans he.symm)

/-- An append to a store keeps a database in order. -/
theorem appendToStore (h : db.InOrder) (hsep : db.catalog.Separate) {name : String}
    {s : FactStore} (hs : db.stores.get? name = some s) (f : Fact) :
    ({ db with directory := (s.append db.directory f).1 } : Database).InOrder := by
  have hkeeps := h.keeps hs
  obtain ⟨hfacts, htrees, -⟩ := append_frame s db.directory f
  have hname := h.table_name hs
  have hhistory := (hkeeps.append f).history
  rw [hname] at hfacts hhistory
  exact h.withDirectory hsep hs hhistory hfacts htrees

/-- The head block is no concern of the order. -/
theorem setHead (h : db.InOrder) (block : UInt64) :
    ({ db with directory := { db.directory with head := block } } : Database).InOrder :=
  ⟨h.catalog, h.store_table, h.table_store, fun hs => (h.keeps hs).of_frame rfl fun _ => rfl,
    h.registered, h.unknown, h.unregistered, h.queries⟩

/-- An append keeps a database in order. -/
theorem append (h : db.InOrder) (hsep : db.catalog.Separate) (table : String) (f : Fact) :
    (db.append table f).1.InOrder := by
  rw [Database.append]
  cases hs : db.store table with
  | error e => exact h
  | ok s =>
    have hafter := h.appendToStore hsep (store_eq_ok.mp hs) f
    dsimp only
    split
    · rename_i d e heq
      rw [heq] at hafter
      exact hafter
    · rename_i d outcome heq
      rw [heq] at hafter
      exact hafter.setHead _

/-- Rebuilding an index keeps a database in order. -/
theorem rebuildIndex (h : db.InOrder) (hsep : db.catalog.Separate) {name : String}
    {s : FactStore} (hs : db.stores.get? name = some s) (index : String) :
    ({ db with directory := (s.rebuildIndex db.directory index).1 } : Database).InOrder := by
  have hkeeps := h.keeps hs
  have hafter := (hkeeps.rebuild index).history
  rw [h.table_name hs] at hafter
  cases hl : s.layouts.get? index with
  | none =>
    rw [rebuildIndex_of_none hl]
    exact h
  | some l =>
    obtain ⟨d', count, heq, hframe, -⟩ := rebuildIndex_of_ok hkeeps.sound hkeeps.recorded hl
    rw [heq] at hafter ⊢
    refine h.withDirectory hsep hs hafter (fun _ _ => hframe.factTree_eq _) fun tree htree => ?_
    exact hframe.indexTree_eq tree (htree l (mem_values_iff.mpr ⟨index, hl⟩))

/-- A new table with an empty store keeps a database in order. -/
theorem withTable (h : db.InOrder) {t : Table} (ht : t.Sound) {catalog : Catalog}
    (hc : db.catalog.addTable t = .ok catalog) (hnone : db.stores.get? t.name = none) :
    ({ db with catalog, stores := db.stores.insert t.name ⟨t, .empty⟩ } : Database).InOrder := by
  have hextends := Catalog.extends_of_addTable hc
  have hsound := h.catalog.addTable hc
  obtain ⟨-, ⟨-, rfl⟩ | ⟨hknown, rfl⟩⟩ := Catalog.addTable_eq_ok hc
  · refine ⟨hsound, fun hs => ?_, fun {name t'} ht' => ?_, fun hs => ?_, fun hi => ?_,
      fun htable => ?_, h.unregistered, fun hq => (h.queries hq).mono hextends⟩
    · obtain ⟨rfl, rfl⟩ | ⟨-, hs⟩ := SortedMap.get?_insert_eq_some.mp hs
      · exact SortedMap.get?_insert_self ..
      · exact hextends.table (h.store_table hs)
    · obtain ⟨rfl, -⟩ | ⟨hne, ht'⟩ := SortedMap.get?_insert_eq_some.mp ht'
      · exact ⟨_, SortedMap.get?_insert_self ..⟩
      · obtain ⟨s, hs⟩ := h.table_store ht'
        exact ⟨s, SortedMap.get?_insert_eq_some.mpr (.inr ⟨hne, hs⟩)⟩
    · obtain ⟨rfl, rfl⟩ | ⟨-, hs⟩ := SortedMap.get?_insert_eq_some.mp hs
      · have hempty := h.unknown hnone
        have hhistory : db.directory.history t.name = [] := by
          rw [Directory.history, hempty]
          rfl
        rw [hhistory]
        exact .ofTable (ofTable_eq_ok.mpr ⟨ht, rfl⟩) hempty
      · exact h.keeps hs
    · obtain ⟨s, l, hs, hl⟩ := h.registered hi
      refine ⟨s, l, SortedMap.get?_insert_eq_some.mpr (.inr ⟨fun he => ?_, hs⟩), hl⟩
      rw [he, hnone] at hs
      cases hs
    · exact h.unknown (SortedMap.get?_insert_eq_none.mp htable).2
  · obtain ⟨s, hs⟩ := h.table_store hknown
    rw [hnone] at hs
    cases hs

/-- A table keeps a database in order. -/
theorem registerTable (h : db.InOrder) {t : Table} {db' : Database} {s : FactStore}
    (hdb : db.registerTable t = .ok (db', s)) : db'.InOrder := by
  obtain ⟨catalog, hc, ⟨hnone, rfl⟩ | ⟨hs, rfl⟩⟩ := registerTable_eq_ok hdb
  · exact h.withTable (Catalog.addTable_eq_ok hc).1 hc hnone
  · obtain ⟨-, ⟨hnew, -⟩ | ⟨-, rfl⟩⟩ := Catalog.addTable_eq_ok hc
    · rw [h.store_table hs] at hnew
      cases hnew
    · exact h

/-- An index of the catalog is registered with the store of its table, and
its tree alone may change. -/
theorem registerIndex_eq (h : db.InOrder) {i : Index} {l : Layout} {catalog : Catalog}
    (hc : db.catalog.addIndex i = .ok (l, catalog)) (hsep : catalog.Separate) :
    ∃ s d, db.stores.get? i.table = some s ∧
      db.registerIndex i = (⟨d, catalog, db.stores.insert i.table
        { s with layouts := s.layouts.insert i.name l }, db.queries⟩, .ok l) ∧
      db.directory.Reindexed (· = i.treeName) d ∧
      ({ s with layouts := s.layouts.insert i.name l } : FactStore).Keeps catalog.Knows d
        (d.history i.table) := by
  have hextends := Catalog.extends_of_addIndex hc
  have hknows := Catalog.knows_of_addIndex hc
  obtain ⟨⟨t, ht, hl⟩, -⟩ := Catalog.addIndex_eq_ok hc
  obtain ⟨s, hs⟩ := h.table_store ht
  obtain rfl : s.table = t := by
    rw [h.store_table hs] at ht
    exact Option.some.inj ht
  have hkeeps : s.Keeps catalog.Knows db.directory (db.directory.history i.table) :=
    (h.keeps hs).mono fun _ hj => hextends.knows hj
  have htree := Index.treeName_eq hkeeps.sound.table hl
  have hnew : s.layouts.get? i.name = none → (db.directory.indexTree l.treeName).isEmpty = true :=
    fun hnone => h.unregistered fun j hj he => by
      obtain rfl := hsep j i (hextends.knows hj) hknows (he.trans htree)
      obtain ⟨s', l', hs', hl'⟩ := h.registered hj
      rw [hs] at hs'
      cases hs'
      rw [hnone] at hl'
      cases hl'
  obtain ⟨d, heq, hframe, hkeeps'⟩ := hkeeps.register
    (fun _ _ hj hk he => Catalog.eq_of_name_eq hj hk he) hknows hl hnew
  have hhistory : d.history i.table = db.directory.history i.table :=
    Directory.history_congr (hframe.factTree_eq _)
  have hstore : ({ db with catalog } : Database).store i.table = .ok s := store_eq_ok.mpr hs
  refine ⟨s, d, hs, ?_, htree ▸ hframe, hhistory ▸ hkeeps'⟩
  rw [Database.registerIndex, hc]
  dsimp only
  rw [hstore]
  dsimp only
  rw [heq]

/-- A registered index keeps a database in order. -/
theorem withIndex (h : db.InOrder) {i : Index} {l : Layout} {catalog : Catalog}
    (hc : db.catalog.addIndex i = .ok (l, catalog)) (hsep : catalog.Separate) {s : FactStore}
    (hs : db.stores.get? i.table = some s) {d : Directory}
    (hframe : db.directory.Reindexed (· = i.treeName) d)
    (hkeeps : ({ s with layouts := s.layouts.insert i.name l } : FactStore).Keeps catalog.Knows d
      (d.history i.table)) :
    (⟨d, catalog, db.stores.insert i.table { s with layouts := s.layouts.insert i.name l },
      db.queries⟩ : Database).InOrder := by
  have hextends := Catalog.extends_of_addIndex hc
  have hknows := Catalog.knows_of_addIndex hc
  obtain ⟨-, hcatalog⟩ := Catalog.addIndex_eq_ok hc
  have htables := Catalog.tables_of_addIndex hc
  have hindexes : ∀ {name j}, catalog.indexes.get? name = some j →
      name = i.name ∧ j = i ∨ name ≠ i.name ∧ db.catalog.indexes.get? name = some j := by
    rcases hcatalog with ⟨-, rfl⟩ | ⟨hknown, rfl⟩
    · exact fun hj => SortedMap.get?_insert_eq_some.mp hj
    · intro name j hj
      by_cases hname : name = i.name
      · rw [hname, hknown] at hj
        exact .inl ⟨hname, (Option.some.inj hj).symm⟩
      · exact .inr ⟨hname, hj⟩
  refine ⟨h.catalog.addIndex hc, fun hs' => ?_, fun {name t'} ht' => ?_, fun {name s'} hs' => ?_,
    fun {name j} hj => ?_, fun htable => ?_, fun {tree} hother => ?_,
    fun hq => (h.queries hq).mono hextends⟩
  · have htable := hextends.table (h.store_table hs)
    obtain ⟨rfl, rfl⟩ | ⟨-, hs'⟩ := SortedMap.get?_insert_eq_some.mp hs'
    · exact htable
    · exact hextends.table (h.store_table hs')
  · obtain ⟨s', hs'⟩ := h.table_store (htables ▸ ht')
    by_cases hname : name = i.table
    · exact ⟨_, SortedMap.get?_insert_eq_some.mpr (.inl ⟨hname, rfl⟩)⟩
    · exact ⟨s', SortedMap.get?_insert_eq_some.mpr (.inr ⟨hname, hs'⟩)⟩
  · obtain ⟨rfl, rfl⟩ | ⟨hne, hs'⟩ := SortedMap.get?_insert_eq_some.mp hs'
    · exact hkeeps
    · rw [Directory.history_congr (hframe.factTree_eq _)]
      refine ((h.keeps hs').mono fun _ hj => hextends.knows hj).of_frame (hframe.factTree_eq _)
        fun hl' => hframe.indexTree_eq _ fun he => hne ?_
      obtain ⟨j, hj, htable, htree⟩ := h.exists_index hs' hl'
      obtain rfl := hsep j i (hextends.knows hj) hknows (htree.trans he)
      exact htable.symm
  · obtain ⟨rfl, rfl⟩ | ⟨hne, hj⟩ := hindexes hj
    · exact ⟨_, l, SortedMap.get?_insert_self .., SortedMap.get?_insert_self ..⟩
    · obtain ⟨s', l', hs', hl'⟩ := h.registered hj
      by_cases htable : j.table = i.table
      · rw [htable, hs] at hs'
        cases hs'
        exact ⟨_, l', SortedMap.get?_insert_eq_some.mpr (.inl ⟨htable, rfl⟩),
          SortedMap.get?_insert_eq_some.mpr (.inr ⟨hne, hl'⟩)⟩
      · exact ⟨s', l', SortedMap.get?_insert_eq_some.mpr (.inr ⟨htable, hs'⟩), hl'⟩
  · rw [hframe.factTree_eq]
    exact h.unknown (SortedMap.get?_insert_eq_none.mp htable).2
  · rw [hframe.indexTree_eq tree fun he => hother i hknows he.symm]
    exact h.unregistered fun j hj => hother j (hextends.knows hj)

end InOrder

/-- The catalog after an index was added to it. -/
theorem catalog_registerIndex {i : Index} {l : Layout} {catalog : Catalog}
    (hc : db.catalog.addIndex i = .ok (l, catalog)) :
    (db.registerIndex i).1.catalog = catalog := by
  rw [registerIndex, hc]
  dsimp only
  split
  · rfl
  · split <;> rfl

/-- An index that cannot be added leaves a database as it is. -/
theorem registerIndex_of_error {i : Index} {e : Error} (hc : db.catalog.addIndex i = .error e) :
    (db.registerIndex i).1 = db := by
  rw [registerIndex, hc]

/-- An index keeps a database in order, if it shares its tree with no other. -/
theorem InOrder.registerIndex (h : db.InOrder) {i : Index}
    (hsep : (db.registerIndex i).1.catalog.Separate) : (db.registerIndex i).1.InOrder := by
  cases hc : db.catalog.addIndex i with
  | error e =>
    rw [registerIndex_of_error hc]
    exact h
  | ok result =>
    obtain ⟨l, catalog⟩ := result
    rw [catalog_registerIndex hc] at hsep
    obtain ⟨s, d, hs, heq, hframe, hkeeps⟩ := h.registerIndex_eq hc hsep
    rw [heq]
    exact h.withIndex hc hsep hs hframe hkeeps

/-- Registering an index keeps the definitions. -/
theorem extends_registerIndex (db : Database) (i : Index) :
    db.catalog.Extends (db.registerIndex i).1.catalog := by
  cases hc : db.catalog.addIndex i with
  | error e =>
    rw [registerIndex_of_error hc]
    exact .refl
  | ok result =>
    rw [catalog_registerIndex hc]
    exact Catalog.extends_of_addIndex hc

/-- Registering a table keeps the definitions. -/
theorem extends_registerTable {t : Table} {db' : Database} {s : FactStore}
    (h : db.registerTable t = .ok (db', s)) : db.catalog.Extends db'.catalog := by
  obtain ⟨catalog, hc, ⟨-, rfl⟩ | ⟨-, rfl⟩⟩ := registerTable_eq_ok h
  · exact Catalog.extends_of_addTable hc
  · exact Catalog.extends_of_addTable hc

/-- Installing queries leaves the definitions. -/
theorem catalog_install (db : Database) (queries : List QueryDefinition) :
    (db.install queries).1.catalog = db.catalog := by
  rw [install]
  cases Registry.prepare db.catalog queries <;> rfl

/-- Installed queries keep a database in order. -/
theorem InOrder.install (h : db.InOrder) (queries : List QueryDefinition) :
    (db.install queries).1.InOrder := by
  rw [Database.install]
  cases hr : Registry.prepare db.catalog queries with
  | error e => exact h
  | ok r =>
    have hfits : ∀ {name q}, r.get? name = some q → q.Fits db.catalog :=
      Registry.forall_of_prepare (P := fun _ q => q.Fits db.catalog)
        (PreparedQuery.fits_of_compile h.catalog) hr
    exact ⟨h.catalog, h.store_table, h.table_store, h.keeps, h.registered, h.unknown,
      h.unregistered, hfits⟩

/-- An append leaves the definitions. -/
theorem append_eq_withDirectory (db : Database) (table : String) (f : Fact) :
    ∃ d, (db.append table f).1 = { db with directory := d } := by
  rw [append]
  cases db.store table with
  | error e => exact ⟨db.directory, rfl⟩
  | ok s =>
    dsimp only
    split
    · exact ⟨_, rfl⟩
    · exact ⟨_, rfl⟩

section Changes

variable {P : Database → Prop}
  (table : ∀ {db t db' s}, P db → registerTable db t = .ok (db', s) → P db')
  (index : ∀ {db} i, P db → P (registerIndex db i).1)
  (queries : ∀ {db} definitions, P db → P (install db definitions).1)
  (directory : ∀ {db : Database} d, P db → P { db with directory := d })

include table in
theorem registerTables_induction (h : P db) (tables : List Table) :
    P (db.registerTables tables).1 := by
  induction tables generalizing db with
  | nil => exact h
  | cons t tables ih =>
    rw [registerTables]
    cases ht : db.registerTable t with
    | error e => exact h
    | ok result => exact ih (table h ht)

include index in
theorem registerIndexes_induction (h : P db) (indexes : List Index) :
    P (db.registerIndexes indexes).1 := by
  induction indexes generalizing db with
  | nil => exact h
  | cons i indexes ih =>
    have hfirst := index i h
    rw [registerIndexes]
    cases hi : db.registerIndex i with
    | mk db' r =>
      rw [hi] at hfirst
      cases r with
      | error e => exact hfirst
      | ok l => exact ih hfirst

include table index queries in
theorem loadConfiguration_induction (h : P db) (c : Configuration) :
    P (db.loadConfiguration c).1 := by
  have htables := registerTables_induction table h c.tables
  rw [loadConfiguration]
  cases ht : db.registerTables c.tables with
  | mk db₁ r₁ =>
    rw [ht] at htables
    cases r₁ with
    | error e => exact htables
    | ok _ =>
      have hindexes := registerIndexes_induction index htables c.indexes
      dsimp only
      cases hi : db₁.registerIndexes c.indexes with
      | mk db₂ r₂ =>
        rw [hi] at hindexes
        cases r₂ with
        | error e => exact hindexes
        | ok _ => exact queries c.queries hindexes

include table index queries directory in
/-- What every table, index, list of queries and change of the directory keeps
is kept by every call. -/
theorem call_induction (h : P db) (c : DatabaseCall) : P (db.call c) := by
  cases c with
  | registerTable t =>
    rw [call]
    cases ht : db.registerTable t with
    | error e => exact h
    | ok result => exact table h ht
  | registerIndex i => exact index i h
  | load c => exact loadConfiguration_induction table index queries h c
  | append t f =>
    obtain ⟨d, hd⟩ := append_eq_withDirectory db t f
    rw [call, hd]
    exact directory d h
  | setHeadBlock block => exact directory _ h
  | appendToStore t f =>
    rw [call]
    cases db.store t with
    | error e => exact h
    | ok s => exact directory _ h
  | rebuildIndex t i =>
    rw [call]
    cases db.store t with
    | error e => exact h
    | ok s => exact directory _ h

include table index queries directory in
theorem run_induction (h : P db) (calls : List DatabaseCall) : P (db.run calls) := by
  induction calls generalizing db with
  | nil => exact h
  | cons c calls ih => exact ih (call_induction table index queries directory h c)

end Changes

/-- Every call keeps the definitions. -/
theorem extends_call (db : Database) (c : DatabaseCall) :
    db.catalog.Extends (db.call c).catalog :=
  call_induction (P := fun after => db.catalog.Extends after.catalog)
    (fun h ht => h.trans (extends_registerTable ht))
    (fun i h => h.trans (extends_registerIndex _ i))
    (fun definitions h => (catalog_install _ definitions).symm ▸ h) (fun _ h => h) .refl c

/-- A configuration keeps a database in order, if no index shares its tree with
another. -/
theorem InOrder.loadConfiguration (h : db.InOrder) {c : Configuration}
    (hsep : (db.loadConfiguration c).1.catalog.Separate) :
    (db.loadConfiguration c).1.InOrder :=
  loadConfiguration_induction (P := fun after => after.catalog.Separate → after.InOrder)
    (fun h ht hsep => (h (hsep.of_extends (extends_registerTable ht))).registerTable ht)
    (fun i h hsep => (h (hsep.of_extends (extends_registerIndex _ i))).registerIndex hsep)
    (fun definitions h hsep => (h (catalog_install _ definitions ▸ hsep)).install definitions)
    (fun _ => h) c hsep

/-- Every call keeps a database in order, if no two indexes share a tree. -/
theorem InOrder.call (h : db.InOrder) {c : DatabaseCall} (hsep : (db.call c).catalog.Separate) :
    (db.call c).InOrder := by
  have hbefore := hsep.of_extends (extends_call db c)
  cases c with
  | registerTable t =>
    rw [Database.call]
    cases ht : db.registerTable t with
    | error e => exact h
    | ok result => exact h.registerTable ht
  | registerIndex i => exact h.registerIndex hsep
  | load c => exact h.loadConfiguration hsep
  | append table f => exact h.append hbefore table f
  | setHeadBlock block => exact h.setHead block
  | appendToStore table f =>
    rw [Database.call]
    cases hs : db.store table with
    | error e => exact h
    | ok s => exact h.appendToStore hbefore (store_eq_ok.mp hs) f
  | rebuildIndex table index =>
    rw [Database.call]
    cases hs : db.store table with
    | error e => exact h
    | ok s => exact h.rebuildIndex hbefore (store_eq_ok.mp hs) index

theorem extends_run (db : Database) (calls : List DatabaseCall) :
    db.catalog.Extends (db.run calls).catalog := by
  induction calls generalizing db with
  | nil => exact .refl
  | cons c calls ih => exact (extends_call db c).trans (ih _)

/-- Every run keeps a database in order, if no two indexes share a tree. -/
theorem InOrder.run (h : db.InOrder) {calls : List DatabaseCall}
    (hsep : (db.run calls).catalog.Separate) : (db.run calls).InOrder := by
  induction calls generalizing db with
  | nil => exact h
  | cons c calls ih =>
    exact ih (h.call (hsep.of_extends (extends_run (db.call c) calls))) hsep

/-- An installed query reads a source that is ready. -/
theorem InOrder.exists_source (h : db.InOrder) {name : String} {q : PreparedQuery}
    (hq : db.queries.find name = .ok q) :
    ∃ source, db.rangeSource q = .ok source ∧ source.Ready db.directory := by
  obtain ⟨⟨i, hi, htable⟩, hjoin⟩ := h.queries (Registry.find_eq_ok.mp hq)
  obtain ⟨s, l, hs, hl⟩ := h.registered hi
  rw [htable] at hs
  have hname := h.table_name hs
  have hkeeps := h.keeps hs
  rw [← hname] at hkeeps
  have hstore := store_eq_ok.mpr hs
  have hlayout : s.layout q.definition.index = .ok l := layout_eq_ok.mpr hl
  rw [rangeSource, hstore]
  dsimp only [bind, Except.bind]
  rw [hlayout]
  cases hj : q.join with
  | none => exact ⟨⟨s, l, none⟩, rfl, ⟨_, hkeeps⟩, ⟨_, hl⟩, by simp⟩
  | some j =>
    obtain ⟨first, second, hfirst, hsecond, hreads⟩ := hjoin j hj
    obtain ⟨s', hs'⟩ := h.table_store hsecond
    rw [h.store_table hs] at hfirst
    cases hfirst
    rw [h.store_table hs'] at hsecond
    cases hsecond
    have hkeeps' := h.keeps hs'
    have hname' := h.table_name hs'
    rw [← hname'] at hkeeps'
    refine ⟨⟨s, l, some ⟨j, s'⟩⟩, ?_, ⟨_, hkeeps⟩, ⟨_, hl⟩, fun join hjoin => ?_⟩
    · rw [joinSource, store_eq_ok.mpr hs']
      rfl
    · cases hjoin
      exact ⟨hreads, hkeeps'.sound, hkeeps'.recorded⟩

/-- An answer is a page of the source that the query reads. -/
theorem query_eq {r : Request} {q : PreparedQuery} (hq : db.queries.find r.query = .ok q)
    {source : RangeSource} (hsource : db.rangeSource q = .ok source) :
    db.query r = (source.page db.directory r.first r.last (db.snapshot q.definition r)
      (pageLimit q.definition r)).map fun page => ⟨q.columns, page.rows, page.more⟩ := by
  rw [query, hq]
  dsimp only [bind, Except.bind]
  rw [hsource]
  dsimp only
  cases source.page db.directory r.first r.last (db.snapshot q.definition r)
    (pageLimit q.definition r) <;> rfl

end Database
end Chronicle
