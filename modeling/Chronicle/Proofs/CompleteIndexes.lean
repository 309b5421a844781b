import Chronicle.Proofs.Sessions
import Chronicle.Proofs.StoredIdentities

/-!
# Complete indexes

In a session on a new directory an index of the catalog holds the stored
identities of its table at every time, as long as no two indexes share a tree.
Rebuilding it finds nothing to change. What is stored depends on the calls that
add tables and facts alone, so an index that is registered late has the tree of
one that was kept from the start.
-/

namespace Chronicle

open FactStore

/-- A history has one tree. -/
theorem History.RecordedIn.tree_eq {h : History} {t : Table} {tree tree' : FactTree}
    (hr : h.RecordedIn t tree) (hr' : h.RecordedIn t tree') : tree = tree' :=
  SortedMap.ext_entries fun e => by rw [hr.mem_entries, hr'.mem_entries]

/-- Whether a call may add tables or facts. The others concern indexes and the
head block. -/
def DatabaseCall.writes : DatabaseCall → Bool
  | .registerIndex _ => false
  | .rebuildIndex _ _ => false
  | .setHeadBlock _ => false
  | _ => true

namespace Database

variable {db db' db'' : Database}

/-- Two databases with the same tables and the same facts. -/
structure SameFacts (db db' : Database) : Prop where
  /-- The tables are the same. -/
  tables_eq : db'.catalog.tables = db.catalog.tables
  /-- The facts are the same. -/
  factTree_eq : ∀ table, db'.directory.factTree table = db.directory.factTree table

namespace SameFacts

theorem refl : SameFacts db db := ⟨rfl, fun _ => rfl⟩

theorem symm (h : SameFacts db db') : SameFacts db' db :=
  ⟨h.tables_eq.symm, fun table => (h.factTree_eq table).symm⟩

theorem trans (h : SameFacts db db') (h' : SameFacts db' db'') : SameFacts db db'' :=
  ⟨h'.tables_eq.trans h.tables_eq, fun table => (h'.factTree_eq table).trans (h.factTree_eq table)⟩

/-- Each store has a counterpart of the same table. -/
theorem exists_store (h : SameFacts db db') (hdb : db.Opened) (hdb' : db'.Opened) {name : String}
    {s : FactStore} (hs : db.stores.get? name = some s) :
    ∃ s', db'.stores.get? name = some s' ∧ s'.table = s.table := by
  have htable : db'.catalog.tables.get? name = some s.table := h.tables_eq ▸ hdb.store_table hs
  obtain ⟨s', hs'⟩ := hdb'.table_store htable
  rw [hdb'.store_table hs'] at htable
  exact ⟨s', hs', Option.some.inj htable⟩

theorem registerIndex (hdb : db.Opened) (i : Index) : SameFacts db (db.registerIndex i).1 := by
  cases hc : db.catalog.addIndex i with
  | error e =>
    rw [registerIndex_of_error hc]
    exact .refl
  | ok result =>
    obtain ⟨l, catalog⟩ := result
    obtain ⟨⟨t, ht, hl⟩, -⟩ := Catalog.addIndex_eq_ok hc
    obtain ⟨s, hs⟩ := hdb.table_store ht
    rw [hdb.store_table hs] at ht
    obtain rfl := Option.some.inj ht
    obtain ⟨hframe, -⟩ := registerIndex_frame (d := db.directory) hl
    have htables := Catalog.tables_of_addIndex hc
    obtain hcall | ⟨s', -, -, hcall⟩ := registerIndex_of_store hc hs
    · rw [hcall]
      exact ⟨htables, hframe.factTree_eq⟩
    · rw [hcall]
      exact ⟨htables, hframe.factTree_eq⟩

theorem install (queries : List QueryDefinition) : SameFacts db (db.install queries).1 := by
  rw [Database.install]
  cases Registry.prepare db.catalog queries <;> exact ⟨rfl, fun _ => rfl⟩

/-- Of a configuration only the tables matter. -/
theorem loadConfiguration (hdb : db.Opened) (c : Configuration) :
    SameFacts (db.registerTables c.tables).1 (db.loadConfiguration c).1 := by
  have hopened : (db.registerTables c.tables).1.Opened :=
    registerTables_induction (fun h ht => h.registerTable ht) hdb c.tables
  rw [Database.loadConfiguration]
  cases ht : db.registerTables c.tables with
  | mk db₁ r₁ =>
    rw [ht] at hopened
    cases r₁ with
    | error e => exact .refl
    | ok _ =>
      have hindexes : (db₁.registerIndexes c.indexes).1.Opened ∧
          SameFacts db₁ (db₁.registerIndexes c.indexes).1 :=
        registerIndexes_induction (P := fun x => x.Opened ∧ SameFacts db₁ x)
          (fun i h => ⟨h.1.registerIndex i, h.2.trans (registerIndex h.1 i)⟩) ⟨hopened, .refl⟩ _
      dsimp only
      cases hi : db₁.registerIndexes c.indexes with
      | mk db₂ r₂ =>
        rw [hi] at hindexes
        cases r₂ with
        | error e => exact hindexes.2
        | ok _ => exact hindexes.2.trans (install c.queries)

theorem rebuildIndex (table index : String) :
    SameFacts db (db.call (.rebuildIndex table index)) := by
  rw [call]
  cases db.store table with
  | error e => exact .refl
  | ok s =>
    cases hl : s.layouts.get? index with
    | none =>
      dsimp only
      rw [rebuildIndex_of_none hl]
      exact .refl
    | some l => exact ⟨rfl, (rebuildIndex_frame hl).factTree_eq⟩

/-- An append differs from one to the store in the head block alone. -/
theorem append (table : String) (f : Fact) :
    SameFacts (db.call (.appendToStore table f)) (db.call (.append table f)) := by
  rw [call, call, Database.append]
  cases db.store table with
  | error e => exact .refl
  | ok s =>
    dsimp only
    cases s.append db.directory f with
    | mk d r => cases r <;> exact ⟨rfl, fun _ => rfl⟩

/-- A call that adds no table and no fact leaves both. -/
theorem of_not_writes (hdb : db.Opened) {c : DatabaseCall} (hc : c.writes = false) :
    SameFacts db (db.call c) := by
  cases c with
  | registerIndex i => exact registerIndex hdb i
  | rebuildIndex table index => exact rebuildIndex table index
  | setHeadBlock block => exact ⟨rfl, fun _ => rfl⟩
  | registerTable t => cases hc
  | load c => cases hc
  | append table f => cases hc
  | appendToStore table f => cases hc

end SameFacts

/-- A database whose stores record the stored histories of their tables. -/
structure Recorded (db : Database) : Prop where
  /-- The stores are in order. -/
  opened : db.Opened
  /-- Each store records the stored history of its table. -/
  recorded : ∀ {name s}, db.stores.get? name = some s →
    (db.directory.history name).RecordedIn s.table (s.facts db.directory)
  /-- A table without a store has no facts. -/
  unknown : ∀ {table}, db.stores.get? table = none → db.directory.factTree table = .empty

theorem recorded_empty : (ofDirectory .empty).Recorded :=
  ⟨.ofDirectory .empty, by simp [ofDirectory], fun _ => rfl⟩

namespace Recorded

/-- The same facts of the same tables are recorded. -/
theorem of_sameFacts (h : db.Recorded) (hopened : db'.Opened) (hsame : SameFacts db db') :
    db'.Recorded := by
  refine ⟨hopened, fun {name s'} hs' => ?_, fun {table} htable => ?_⟩
  · obtain ⟨s, hs, heq⟩ := hsame.symm.exists_store hopened h.opened hs'
    have hrecorded := h.recorded hs
    rw [facts, heq] at hrecorded
    rw [facts, hsame.factTree_eq, Directory.history_congr (hsame.factTree_eq name)]
    exact hrecorded
  · rw [hsame.factTree_eq]
    refine h.unknown (Option.eq_none_iff_forall_ne_some.mpr fun s hs => ?_)
    obtain ⟨s', hs', -⟩ := hsame.exists_store h.opened hopened hs
    rw [htable] at hs'
    cases hs'

theorem registerTable (h : db.Recorded) {t : Table} {s : FactStore}
    (hdb : db.registerTable t = .ok (db', s)) : db'.Recorded := by
  have hopened := h.opened.registerTable hdb
  obtain ⟨catalog, hc, ⟨hnone, rfl⟩ | ⟨-, rfl⟩⟩ := registerTable_eq_ok hdb
  · refine ⟨hopened, fun hs => ?_,
      fun htable => h.unknown (SortedMap.get?_insert_eq_none.mp htable).2⟩
    obtain ⟨rfl, rfl⟩ | ⟨-, hs⟩ := SortedMap.get?_insert_eq_some.mp hs
    · have hempty := h.unknown hnone
      rw [facts, Directory.history, hempty]
      exact History.recordedIn_nil t
    · exact h.recorded hs
  · exact ⟨hopened, h.recorded, h.unknown⟩

/-- An append to the store of a table is recorded. -/
theorem appendToStore (h : db.Recorded) (table : String) (f : Fact) :
    (db.call (.appendToStore table f)).Recorded := by
  rw [Database.call]
  cases hs : db.store table with
  | error e => exact h
  | ok s =>
    rw [store_eq_ok] at hs
    have hname := h.opened.table_name hs
    have hafter := recordedIn_append (h.opened.sound hs) (h.recorded hs) f
    rw [facts, hname] at hafter
    obtain ⟨hfacts, -, -⟩ := append_frame s db.directory f
    rw [hname] at hfacts
    refine ⟨h.opened.withDirectory _, fun {name s'} hs' => ?_, fun {other} hother => ?_⟩
    · by_cases heq : name = table
      · subst heq
        rw [show db.stores.get? name = some s' from hs'] at hs
        cases hs
        rw [facts, hname]
        exact hafter.history
      · have hrecorded := h.recorded hs'
        rw [facts, h.opened.table_name hs'] at hrecorded ⊢
        dsimp only
        rwa [hfacts name heq, Directory.history_congr (hfacts name heq)]
    · have hother : db.stores.get? other = none := hother
      have hne : other ≠ table := fun he => by
        rw [he, hs] at hother
        cases hother
      dsimp only
      rw [hfacts other hne]
      exact h.unknown hother

/-- Every call keeps the stored histories recorded. -/
theorem call (h : db.Recorded) (c : DatabaseCall) : (db.call c).Recorded := by
  by_cases hc : c.writes = false
  · exact h.of_sameFacts (h.opened.call c) (.of_not_writes h.opened hc)
  · cases c with
    | registerTable t =>
      rw [Database.call]
      cases ht : db.registerTable t with
      | error e => exact h
      | ok result => exact h.registerTable ht
    | load c =>
      have htables : (db.registerTables c.tables).1.Recorded :=
        registerTables_induction (fun h ht => h.registerTable ht) h c.tables
      exact htables.of_sameFacts (h.opened.call (.load c)) (.loadConfiguration h.opened c)
    | append table f =>
      exact (h.appendToStore table f).of_sameFacts (h.opened.call _) (.append table f)
    | appendToStore table f => exact h.appendToStore table f
    | registerIndex i => exact absurd rfl hc
    | rebuildIndex table index => exact absurd rfl hc
    | setHeadBlock block => exact absurd rfl hc

end Recorded

namespace SameFacts

/-- A table is registered in both databases or in none. -/
theorem registerTable (h : SameFacts db db') (t : Table) :
    (∃ e, db.registerTable t = .error e ∧ db'.registerTable t = .error e) ∨
      ∃ r r', db.registerTable t = .ok r ∧ db'.registerTable t = .ok r' ∧ SameFacts r.1 r'.1 := by
  have hc' := Catalog.addTable_of_tables_eq h.tables_eq t
  cases hc : db.catalog.addTable t with
  | error e =>
    rw [hc] at hc'
    exact .inl ⟨e, registerTable_of_error hc, registerTable_of_error hc'⟩
  | ok catalog =>
    rw [hc] at hc'
    obtain ⟨db₁, s, hdb, hcatalog, hdirectory⟩ := registerTable_of_ok hc
    obtain ⟨db₁', s', hdb', hcatalog', hdirectory'⟩ := registerTable_of_ok hc'
    refine .inr ⟨(db₁, s), (db₁', s'), hdb, hdb', ?_, fun table => ?_⟩
    · rw [hcatalog, hcatalog']
    · rw [hdirectory, hdirectory']
      exact h.factTree_eq table

theorem registerTables (h : SameFacts db db') (tables : List Table) :
    SameFacts (db.registerTables tables).1 (db'.registerTables tables).1 := by
  induction tables generalizing db db' with
  | nil => exact h
  | cons t tables ih =>
    rw [Database.registerTables, Database.registerTables]
    obtain ⟨e, ht, ht'⟩ | ⟨r, r', ht, ht', hsame⟩ := h.registerTable t
    · rw [ht, ht']
      exact h
    · rw [ht, ht']
      exact ih hsame

/-- Stores of one table that record the same facts append alike. -/
theorem appendToStore (h : SameFacts db db') (hdb : db.Recorded) (hdb' : db'.Recorded)
    (table : String) (f : Fact) :
    SameFacts (db.call (.appendToStore table f)) (db'.call (.appendToStore table f)) := by
  rw [Database.call, Database.call]
  cases hs : db.store table with
  | error e =>
    cases hs' : db'.store table with
    | error e' => exact h
    | ok s' =>
      obtain ⟨s, hs₁, -⟩ := h.symm.exists_store hdb'.opened hdb.opened (store_eq_ok.mp hs')
      rw [store_eq_ok.mpr hs₁] at hs
      cases hs
  | ok s =>
    rw [store_eq_ok] at hs
    obtain ⟨s', hs', htable⟩ := h.exists_store hdb.opened hdb'.opened hs
    rw [store_eq_ok.mpr hs']
    have hname := hdb.opened.table_name hs
    refine ⟨h.tables_eq, fun other => ?_⟩
    by_cases hother : other = table
    · subst hother
      have hafter := recordedIn_append (hdb.opened.sound hs) (hdb.recorded hs) f
      have hafter' := recordedIn_append (hdb'.opened.sound hs') (hdb'.recorded hs') f
      rw [Directory.history_congr (h.factTree_eq other)] at hafter'
      rw [facts, htable] at hafter'
      rw [facts] at hafter
      rw [hname] at hafter hafter'
      exact hafter'.tree_eq hafter
    · have hne : other ≠ s.table.name := hname.symm ▸ hother
      have hframe := (append_frame s db.directory f).1 other hne
      have hframe' := (append_frame s' db'.directory f).1 other (htable.symm ▸ hne)
      exact hframe'.trans ((h.factTree_eq other).trans hframe.symm)

/-- A call finds the same facts and leaves the same facts. -/
theorem call (h : SameFacts db db') (hdb : db.Recorded) (hdb' : db'.Recorded) (c : DatabaseCall) :
    SameFacts (db.call c) (db'.call c) := by
  by_cases hc : c.writes = false
  · exact (of_not_writes hdb.opened hc).symm.trans (h.trans (of_not_writes hdb'.opened hc))
  · cases c with
    | registerTable t =>
      rw [Database.call, Database.call]
      obtain ⟨e, ht, ht'⟩ | ⟨r, r', ht, ht', hsame⟩ := h.registerTable t
      · rw [ht, ht']
        exact h
      · rw [ht, ht']
        exact hsame
    | load c =>
      exact (loadConfiguration hdb.opened c).symm.trans
        ((h.registerTables c.tables).trans (loadConfiguration hdb'.opened c))
    | append table f =>
      exact (append table f).symm.trans ((h.appendToStore hdb hdb' table f).trans (append table f))
    | appendToStore table f => exact h.appendToStore hdb hdb' table f
    | registerIndex i => exact absurd rfl hc
    | rebuildIndex table index => exact absurd rfl hc
    | setHeadBlock block => exact absurd rfl hc

/-- The calls that add nothing may be left out. -/
theorem run_filter (h : SameFacts db db') (hdb : db.Recorded) (hdb' : db'.Recorded)
    (calls : List DatabaseCall) :
    SameFacts (db.run (calls.filter DatabaseCall.writes)) (db'.run calls) := by
  induction calls generalizing db db' with
  | nil => exact h
  | cons c calls ih =>
    by_cases hc : c.writes = true
    · rw [List.filter_cons_of_pos hc]
      exact ih (h.call hdb hdb' c) (hdb.call c) (hdb'.call c)
    · rw [List.filter_cons_of_neg hc]
      exact ih (h.trans (of_not_writes hdb'.opened (by simpa using hc))) hdb (hdb'.call c)

/-- Sessions with the same writes in the same order store the same facts. -/
theorem of_writes_eq {calls calls' : List DatabaseCall}
    (h : calls'.filter DatabaseCall.writes = calls.filter DatabaseCall.writes) :
    SameFacts ((ofDirectory .empty).run calls) ((ofDirectory .empty).run calls') := by
  have hleft : SameFacts ((ofDirectory .empty).run (calls.filter DatabaseCall.writes))
      ((ofDirectory .empty).run calls) :=
    SameFacts.refl.run_filter recorded_empty recorded_empty calls
  have hright : SameFacts ((ofDirectory .empty).run (calls'.filter DatabaseCall.writes))
      ((ofDirectory .empty).run calls') :=
    SameFacts.refl.run_filter recorded_empty recorded_empty calls'
  rw [h] at hright
  exact hleft.symm.trans hright

end SameFacts

/-- Every index of a session is complete, whenever it was registered. It has an
entry for each stored identity, rebuilding it counts them and changes nothing,
and it has the tree of the same index in every session with the same writes. -/
theorem registered_indexes_complete (calls : List DatabaseCall)
    (hsep : ((ofDirectory .empty).run calls).catalog.Separate) {index : String} {i : Index}
    (hi : ((ofDirectory .empty).run calls).catalog.index index = .ok i) :
    let db := (ofDirectory .empty).run calls
    ∃ s l, db.store i.table = .ok s ∧ s.layout index = .ok l ∧ i.compile s.table = .ok l ∧
      s.Indexes db.directory l ∧
      {j | s.Stores db.directory j}.encard = (db.directory.indexTree l.treeName).size ∧
      (∃ d, s.rebuildIndex db.directory index = (d, .ok (db.directory.indexTree l.treeName).size) ∧
        db.directory.Reindexed (fun _ => False) d) ∧
      ∀ calls' : List DatabaseCall,
        calls'.filter DatabaseCall.writes = calls.filter DatabaseCall.writes →
        ((ofDirectory .empty).run calls').catalog.Separate →
        ((ofDirectory .empty).run calls').catalog.index index = .ok i →
        ((ofDirectory .empty).run calls').directory.indexTree l.treeName =
          db.directory.indexTree l.treeName := by
  intro db
  have horder : db.InOrder := inOrder_empty.run hsep
  obtain ⟨s, l, hs, hl, hcompiled, hsound, hrecorded, hplaces⟩ := horder.exists_layout hi
  have hreads := hsound.reads hl
  refine ⟨s, l, store_eq_ok.mpr hs, layout_eq_ok.mpr hl, hcompiled,
    (hrecorded.indexes_iff hreads).mpr hplaces, ?_,
    rebuildIndex_of_complete hsound hrecorded hl hplaces, fun calls' hwrites hsep' hi' => ?_⟩
  · rw [hrecorded.encard_stores, hplaces.size_eq]
  · have horder' : ((ofDirectory .empty).run calls').InOrder := inOrder_empty.run hsep'
    have hsame : SameFacts db ((ofDirectory .empty).run calls') := .of_writes_eq hwrites
    obtain ⟨s', l', hs', -, hcompiled', -, -, hplaces'⟩ := horder'.exists_layout hi'
    have htable : s'.table = s.table := by
      have hknown := horder'.store_table hs'
      rw [hsame.tables_eq, horder.store_table hs] at hknown
      exact (Option.some.inj hknown).symm
    rw [htable, hcompiled] at hcompiled'
    obtain rfl := Except.ok.inj hcompiled'
    rw [Directory.history_congr (hsame.factTree_eq i.table)] at hplaces'
    exact hplaces'.unique hplaces

/-- Two identities of the sample table are stored, one of them before its index
by scope is registered. The index has both, and the tree that it has where it
is registered first. -/
theorem sample_registered_indexes_complete :
    let fact : UInt64 → UInt64 → Fact := fun n block =>
      .live (Sample.rowIdentity n) block [.string "payer", .bytes []]
    let late : List DatabaseCall := [.registerTable Sample.contractRow,
      .append "contract_row" (fact 3 4), .append "contract_row" (fact 3 5),
      .registerIndex Sample.byScope, .append "contract_row" (fact 1 5),
      .append "contract_row" (fact 1 2)]
    let early : List DatabaseCall := [.registerTable Sample.contractRow,
      .registerIndex Sample.byScope, .append "contract_row" (fact 3 4),
      .rebuildIndex "contract_row" "contract_row_by_scope", .append "contract_row" (fact 3 5),
      .append "contract_row" (fact 1 5), .append "contract_row" (fact 1 2)]
    let db := (ofDirectory .empty).run late
    ∃ s, db.store "contract_row" = .ok s ∧ {j | s.Stores db.directory j}.encard = 2 ∧
      (∃ d, s.rebuildIndex db.directory "contract_row_by_scope" = (d, .ok 2) ∧
        db.directory.Reindexed (fun _ => False) d) ∧
      ((ofDirectory .empty).run early).directory.indexTree Sample.byScope.treeName =
        db.directory.indexTree Sample.byScope.treeName := by
  intro fact late early db
  have hsep : db.catalog.Separate := Catalog.separate_of_indexes (by decide +kernel)
  have hi : db.catalog.index "contract_row_by_scope" = .ok Sample.byScope :=
    Catalog.index_eq_ok.mpr (by decide +kernel)
  obtain ⟨s, l, hs, -, hcompiled, -, hstored, hrebuilt, hsame⟩ :=
    registered_indexes_complete late hsep hi
  have htable : (db.store "contract_row").toOption.map FactStore.table =
      some Sample.contractRow := by
    decide +kernel
  rw [show db.store "contract_row" = .ok s from hs] at htable
  rw [show s.table = Sample.contractRow from Option.some.inj htable] at hcompiled
  have htree : l.treeName = Sample.byScope.treeName :=
    Index.treeName_eq (Table.validate_eq_ok.mp rfl) hcompiled
  have hsize : (db.directory.indexTree Sample.byScope.treeName).size = 2 := by decide +kernel
  rw [htree, hsize] at hrebuilt hstored
  rw [htree] at hsame
  exact ⟨s, hs, hstored, hrebuilt, hsame early rfl
    (Catalog.separate_of_indexes (by decide +kernel))
    (Catalog.index_eq_ok.mpr (by decide +kernel))⟩

end Database
end Chronicle
