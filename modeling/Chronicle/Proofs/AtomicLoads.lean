import Chronicle.Proofs.VisibleHistories

/-!
# Loads as a whole

A configuration is registered piece by piece, and its queries are installed at
the end. A load that stops on the way leaves tables and indexes behind that the
queries installed before do not read, so no answer tells that it was tried. A
load that comes to its end replaces all queries, and to load the configuration
once more finds everything in place.
-/

namespace Chronicle

open FactStore

namespace Registry

variable {c : Catalog} {r : Registry} {queries : List QueryDefinition}

/-- The queries of a list and no others, each prepared against a catalog. -/
structure Holds (r : Registry) (c : Catalog) (queries : List QueryDefinition) : Prop where
  /-- The queries have different names. -/
  nodup : (queries.map QueryDefinition.name).Nodup
  /-- Each query can be prepared. -/
  compiles : ∀ definition ∈ queries, ∃ q, PreparedQuery.compile c definition = .ok q
  /-- There are as many as in the list. -/
  size_eq : r.size = queries.length
  /-- What is found under a name is prepared from a query of the list. -/
  get?_iff : ∀ name q, r.get? name = some q ↔
    ∃ definition ∈ queries, definition.name = name ∧ PreparedQuery.compile c definition = .ok q

/-- What is prepared from a list holds the queries of the list. -/
theorem holds_of_prepare (h : prepare c queries = .ok r) : r.Holds c queries := by
  obtain ⟨hnodup, hothers, hsize, hget⟩ := added_of_prepareFrom h
  exact ⟨hnodup, fun definition hmem => (hothers definition hmem).2,
    hsize.trans (Nat.zero_add _), fun name q => by simpa using hget name q⟩

end Registry

namespace Database

variable {db after : Database} {c : Configuration}

/-- An answer shows a page of the source that the query reads. -/
theorem query_eq_shown {r : Request} {q : PreparedQuery} {source : RangeSource}
    (hq : db.queries.find r.query = .ok q) (hsource : db.rangeSource q = .ok source) :
    db.query r = ((source.page db.directory r.first r.last (db.snapshot q.definition r)
      (pageLimit q.definition r)).map Page.shown).map fun shown =>
        ⟨q.columns, shown.1, shown.2⟩ := by
  rw [query_eq hq hsource]
  cases source.page db.directory r.first r.last (db.snapshot q.definition r)
    (pageLimit q.definition r) <;> rfl

/-- A database that knows more than another, of the same facts. -/
structure Widens (db after : Database) : Prop where
  /-- The definitions are kept. -/
  extends_catalog : db.catalog.Extends after.catalog
  /-- The facts are the same. -/
  factTree_eq : ∀ table, after.directory.factTree table = db.directory.factTree table
  /-- The head block is the same. -/
  headBlock_eq : after.headBlock = db.headBlock

namespace Widens

variable {last : Database}

theorem refl : Widens db db := ⟨.refl, fun _ => rfl, rfl⟩

theorem trans (h : Widens db after) (h' : Widens after last) : Widens db last :=
  ⟨h.extends_catalog.trans h'.extends_catalog,
    fun table => (h'.factTree_eq table).trans (h.factTree_eq table),
    h'.headBlock_eq.trans h.headBlock_eq⟩

theorem registerTable {t : Table} {s : FactStore} (h : db.registerTable t = .ok (after, s)) :
    Widens db after := by
  have hextends := extends_registerTable h
  obtain ⟨catalog, -, ⟨-, rfl⟩ | ⟨-, rfl⟩⟩ := registerTable_eq_ok h
  · exact ⟨hextends, fun _ => rfl, rfl⟩
  · exact ⟨hextends, fun _ => rfl, rfl⟩

theorem registerIndex (h : db.InOrder) (i : Index)
    (hsep : (db.registerIndex i).1.catalog.Separate) : Widens db (db.registerIndex i).1 := by
  cases hc : db.catalog.addIndex i with
  | error e =>
    rw [registerIndex_of_error hc]
    exact .refl
  | ok result =>
    have hextends := extends_registerIndex db i
    rw [catalog_registerIndex hc] at hsep
    obtain ⟨s, d, -, heq, hframe, -⟩ := h.registerIndex_eq hc hsep
    rw [heq] at hextends ⊢
    exact ⟨hextends, hframe.factTree_eq, hframe.head_eq⟩

theorem install (db : Database) (queries : List QueryDefinition) :
    Widens db (db.install queries).1 := by
  rw [Database.install]
  cases Registry.prepare db.catalog queries <;> exact ⟨.refl, fun _ => rfl, rfl⟩

/-- However far a load comes, it adds definitions and leaves the facts. -/
theorem loadConfiguration (h : db.InOrder)
    (hsep : (db.loadConfiguration c).1.catalog.Separate) :
    Widens db (db.loadConfiguration c).1 :=
  (loadConfiguration_induction
    (P := fun after => after.catalog.Separate → after.InOrder ∧ Widens db after)
    (fun hP ht hsep =>
      have ⟨horder, hwider⟩ := hP (hsep.of_extends (extends_registerTable ht))
      ⟨horder.registerTable ht, hwider.trans (registerTable ht)⟩)
    (fun i hP hsep =>
      have ⟨horder, hwider⟩ := hP (hsep.of_extends (extends_registerIndex _ i))
      ⟨horder.registerIndex hsep, hwider.trans (registerIndex horder i hsep)⟩)
    (fun queries hP hsep =>
      have ⟨horder, hwider⟩ := hP (catalog_install _ queries ▸ hsep)
      ⟨horder.install queries, hwider.trans (install _ queries)⟩)
    (fun _ => ⟨h, .refl⟩) c hsep).2

/-- Definitions that a query was not prepared from leave its answers. -/
theorem query_eq (hw : Widens db after) (h : db.InOrder) (h' : after.InOrder)
    (hprepared : db.Prepared) (hqueries : after.queries = db.queries) (r : Request) :
    after.query r = db.query r := by
  cases hq : db.queries.find r.query with
  | error e =>
    rw [query, query, hqueries, hq]
    rfl
  | ok q =>
    have hq' : after.queries.find r.query = .ok q := by rw [hqueries, hq]
    obtain ⟨a, ha, hready⟩ := h.exists_source hq
    obtain ⟨b, hb, hready'⟩ := h'.exists_source hq'
    have hcompiled := (hprepared _ q (Registry.find_eq_ok.mp hq)).2
    have halike := alike_of_rangeSource h h' h.catalog .refl hw.extends_catalog hcompiled ha hb
    have hsnapshot : after.snapshot q.definition r = db.snapshot q.definition r := by
      rw [snapshot, snapshot, hw.headBlock_eq]
    have hpage := halike.page_eq hready hready'
      (Directory.SameView.of_factTree (m := db.snapshot q.definition r) hw.factTree_eq) r.first
      r.last (pageLimit q.definition r)
    rw [query_eq_shown hq ha, query_eq_shown hq' hb, hsnapshot, hpage]

/-- Definitions that a query was not prepared from leave its bounds. -/
theorem boundOfJson_eq (hw : Widens db after) (hprepared : db.Prepared)
    (hqueries : after.queries = db.queries) (name : String) (j : Json) :
    after.boundOfJson name j = db.boundOfJson name j := by
  rw [boundOfJson, boundOfJson, hqueries]
  cases hq : db.queries.find name with
  | error e => rfl
  | ok q =>
    obtain ⟨i, t, hi, ht, -⟩ := PreparedQuery.compile_eq_ok.mp
      (hprepared _ q (Registry.find_eq_ok.mp hq)).2
    dsimp only [bind, Except.bind]
    rw [Catalog.index_eq_ok.mpr hi, Catalog.index_eq_ok.mpr (hw.extends_catalog.index hi)]
    dsimp only
    rw [Catalog.table_eq_ok.mpr ht, Catalog.table_eq_ok.mpr (hw.extends_catalog.table ht)]

end Widens

theorem queries_registerTables (db : Database) (tables : List Table) :
    (db.registerTables tables).1.queries = db.queries :=
  registerTables_induction (P := fun after => after.queries = db.queries)
    (fun h ht => (queries_registerTable ht).trans h) rfl tables

theorem queries_registerIndexes (db : Database) (indexes : List Index) :
    (db.registerIndexes indexes).1.queries = db.queries :=
  registerIndexes_induction (P := fun after => after.queries = db.queries)
    (fun i h => (queries_registerIndex _ i).trans h) rfl indexes

/-- A load that fails leaves the installed queries, wherever it stops. -/
theorem queries_loadConfiguration_of_error {e : Error}
    (h : (db.loadConfiguration c).2 = .error e) :
    (db.loadConfiguration c).1.queries = db.queries := by
  have htables := queries_registerTables db c.tables
  rw [loadConfiguration] at h ⊢
  cases ht : db.registerTables c.tables with
  | mk db₁ r₁ =>
    rw [ht] at htables
    cases r₁ with
    | error e => exact htables
    | ok _ =>
      have hindexes := queries_registerIndexes db₁ c.indexes
      simp only [ht] at h ⊢
      cases hi : db₁.registerIndexes c.indexes with
      | mk db₂ r₂ =>
        rw [hi] at hindexes
        cases r₂ with
        | error e => exact hindexes.trans htables
        | ok _ =>
          simp only [hi, install] at h ⊢
          cases hr : Registry.prepare db₂.catalog c.queries with
          | error e => exact hindexes.trans htables
          | ok r => simp [hr] at h

/-- A configuration takes effect as a whole. After any calls that give no two
indexes one tree, a load adds tables and indexes at most. If it fails, wherever
it stops, the installed queries and their answers and bounds are what they were.
If it succeeds, its queries are installed and no others, and it stays in effect
until something else is loaded: loading it again succeeds and changes nothing. -/
theorem loadConfiguration_all_or_nothing (calls : List DatabaseCall) (c : Configuration)
    (hsep : (((ofDirectory .empty).run calls).loadConfiguration c).1.catalog.Separate) :
    let db := (ofDirectory .empty).run calls
    let after := (db.loadConfiguration c).1
    Widens db after ∧
      match (db.loadConfiguration c).2 with
      | .error _ => after.queries = db.queries ∧ (∀ r, after.query r = db.query r) ∧
        ∀ name j, after.boundOfJson name j = db.boundOfJson name j
      | .ok _ => after.queries.Holds after.catalog c.queries ∧
        ∀ more, (∀ call ∈ more, call.loads = false) → (after.run more).catalog.Separate →
          (after.run more).loadConfiguration c = (after.run more, .ok ()) := by
  intro db after
  have hbefore : db.catalog.Separate := hsep.of_extends (extends_call db (.load c))
  have horder : db.InOrder := inOrder_empty.run hbefore
  have hafter : after.InOrder := horder.loadConfiguration hsep
  have hwider : Widens db after := .loadConfiguration horder hsep
  refine ⟨hwider, ?_⟩
  cases hload : (db.loadConfiguration c).2 with
  | error e =>
    have hqueries : after.queries = db.queries := queries_loadConfiguration_of_error hload
    have hprepared : db.Prepared := prepared_empty.run calls
    exact ⟨hqueries, hwider.query_eq horder hafter hprepared hqueries,
      hwider.boundOfJson_eq hprepared hqueries⟩
  | ok _ =>
    obtain ⟨htables, hindexes, hprepare⟩ :=
      loadConfiguration_eq_ok (Prod.ext rfl hload : db.loadConfiguration c = (after, .ok ()))
    refine ⟨Registry.holds_of_prepare hprepare, fun more hmore hsep => ?_⟩
    have hextends := extends_run after more
    refine (hafter.run hsep).loadConfiguration_of_known (fun t ht => hextends.table (htables t ht))
      (fun i hi => hextends.knows (hindexes i hi)) ?_
    rw [queries_run after hmore]
    exact Registry.prepareFrom_mono hextends hprepare

/-- A load adds a table and an index with the items that are stored, and fails
at its query. The items are answered as before. With a query that can be
prepared the load replaces the items, and after another item it can be repeated. -/
theorem sample_loadConfiguration_all_or_nothing :
    let calls : List DatabaseCall := [
      .load ⟨[⟨"item", [⟨"id", .string⟩, ⟨"size", .uint32⟩], ["id"]⟩],
        [⟨"item_by_id", "item", [.asc "id"]⟩], [⟨"items", "item_by_id", true, 10, none⟩]⟩,
      .append "item" (.live [.string "a"] 2 [.uint32 3])]
    let further (query : QueryDefinition) : Configuration := ⟨[⟨"owner", [⟨"name", .string⟩],
      ["name"]⟩], [⟨"item_by_last_id", "item", [.desc "id"]⟩], [query]⟩
    let failing := further ⟨"items", "item_by_name", true, 10, none⟩
    let succeeding := further ⟨"last", "item_by_last_id", true, 10, none⟩
    let db := (ofDirectory .empty).run calls
    let tried := (db.loadConfiguration failing).1
    let loaded := (db.loadConfiguration succeeding).1
    let later := loaded.run [.append "item" (.live [.string "b"] 4 [.uint32 1])]
    let r : Request := ⟨"items", 9, [.string ""], [.string "~"], 5⟩
    (db.loadConfiguration failing).2.toOption = none ∧ tried.catalog.tables.contains "owner" ∧
      (tried.directory.indexTree "item:item_by_last_id").size = 1 ∧
      tried.query r = db.query r ∧ (db.query r).toOption =
        some ⟨["id", "size"], [⟨2, true, [.string "a", .uint32 3]⟩], none⟩ ∧
      loaded.queries.get? "items" = none ∧
      later.loadConfiguration succeeding = (later, .ok ()) := by
  intro calls further failing succeeding db tried loaded later r
  have hfailing : (db.loadConfiguration failing).2.toOption = none := by decide +kernel
  have hsucceeding : (db.loadConfiguration succeeding).2 = .ok () :=
    eq_ok_of_toOption (by decide +kernel)
  have hkept := (loadConfiguration_all_or_nothing calls failing
    (Catalog.separate_of_indexes (by decide +kernel))).2
  have hloaded := (loadConfiguration_all_or_nothing calls succeeding
    (Catalog.separate_of_indexes (by decide +kernel))).2
  rw [hsucceeding] at hloaded
  obtain ⟨hholds, hagain⟩ := hloaded
  refine ⟨hfailing, by decide +kernel, by decide +kernel, ?_, by decide +kernel, ?_, ?_⟩
  · cases hload : (db.loadConfiguration failing).2 with
    | ok _ =>
      rw [hload] at hfailing
      cases hfailing
    | error e =>
      rw [hload] at hkept
      exact hkept.2.1 r
  · refine Option.eq_none_iff_forall_ne_some.mpr fun q hq => ?_
    obtain ⟨definition, hmem, hname, -⟩ := (hholds.get?_iff _ q).mp hq
    rw [List.mem_singleton.mp hmem] at hname
    exact absurd hname (by decide)
  · exact hagain _ (by decide) (Catalog.separate_of_indexes (by decide +kernel))

end Database
end Chronicle
