import Chronicle.Proofs.Configurations

/-!
# Reopening

A session knows its definitions by loading a configuration, and forgets them
when it is closed. Where every tree is as its indexes left it, loading the
configuration again builds nothing and gives back what was known. Sessions on
one directory that load one configuration are therefore as one long session,
and a reopened database is the database that was closed.
-/

namespace Chronicle

open FactStore

/-- Whether a call registers definitions. -/
def DatabaseCall.defines : DatabaseCall → Bool
  | .registerTable _ | .registerIndex _ | .load _ => true
  | _ => false

/-- Whether each index of a catalog without entries has a table without facts. -/
def Directory.Built (d : Directory) (c : Catalog) : Prop :=
  ∀ i, c.Knows i → (d.indexTree i.treeName).isEmpty = true → (d.factTree i.table).isEmpty = true

theorem Directory.Built.of_extends {d : Directory} {c c' : Catalog} (h : d.Built c')
    (hc : c.Extends c') : d.Built c := fun i hi => h i (hc.knows hi)

theorem Directory.built_empty (c : Catalog) : Directory.empty.Built c := fun _ _ _ => rfl

/-- Where an index is built its registration changes nothing that is stored. -/
theorem FactStore.registerIndex_of_built {s : FactStore} (hs : s.table.Sound) {d : Directory}
    {i : Index} {l : Layout} (hi : i.compile s.table = .ok l)
    (hd : (d.indexTree i.treeName).isEmpty = true → (d.factTree i.table).isEmpty = true) :
    s.registerIndex d i = (d, .ok ({ s with layouts := s.layouts.insert i.name l }, l)) := by
  obtain ⟨-, htable, -⟩ := Index.reads_of_compile hs hi
  rw [← Index.treeName_eq hs hi, htable] at hd
  rw [registerIndex, hi]
  dsimp only
  rw [if_neg]
  intro hbuild
  rw [Bool.and_eq_true, facts] at hbuild
  rw [hd hbuild.1] at hbuild
  cases hbuild.2

namespace Database

variable {db : Database} {c : Configuration} {d : Directory}

/-- A table is registered alike on every directory. -/
theorem registerTable_withDirectory (db : Database) (d : Directory) (t : Table) :
    ({ db with directory := d } : Database).registerTable t =
      (db.registerTable t).map fun r => ({ r.1 with directory := d }, r.2) := by
  rw [registerTable, registerTable]
  cases db.catalog.addTable t with
  | error e => rfl
  | ok catalog =>
    dsimp only [bind, Except.bind]
    cases db.stores.get? t.name with
    | some s => rfl
    | none => cases FactStore.ofTable t <;> rfl

theorem registerTables_withDirectory (db : Database) (d : Directory) (tables : List Table) :
    ({ db with directory := d } : Database).registerTables tables =
      ({ (db.registerTables tables).1 with directory := d }, (db.registerTables tables).2) := by
  induction tables generalizing db with
  | nil => rfl
  | cons t tables ih =>
    rw [registerTables, registerTables, registerTable_withDirectory]
    cases db.registerTable t with
    | error e => rfl
    | ok r => exact ih r.1

/-- An index is registered alike on all directories where it is built. -/
theorem registerIndex_withDirectory (h : db.Opened) {i : Index}
    (hdb : db.directory.Built (db.registerIndex i).1.catalog)
    (hd : d.Built (db.registerIndex i).1.catalog) :
    ({ db with directory := d } : Database).registerIndex i =
      ({ (db.registerIndex i).1 with directory := d }, (db.registerIndex i).2) := by
  cases hc : db.catalog.addIndex i with
  | error e => rw [registerIndex, registerIndex, hc]
  | ok result =>
    obtain ⟨l, catalog⟩ := result
    rw [catalog_registerIndex hc] at hdb hd
    have hknows := Catalog.knows_of_addIndex hc
    obtain ⟨⟨t, ht, hl⟩, -⟩ := Catalog.addIndex_eq_ok hc
    obtain ⟨s, hs⟩ := h.table_store ht
    rw [h.store_table hs] at ht
    obtain rfl := Option.some.inj ht
    have hstore (d : Directory) :
        (⟨d, catalog, db.stores, db.queries⟩ : Database).store i.table = .ok s := store_eq_ok.mpr hs
    have hbuilt := registerIndex_of_built (h.sound hs).table hl (hdb i hknows)
    have hbuilt' := registerIndex_of_built (h.sound hs).table hl (hd i hknows)
    rw [registerIndex, registerIndex, hc]
    dsimp only
    rw [hstore, hstore]
    dsimp only
    rw [hbuilt, hbuilt']

theorem registerIndexes_withDirectory (h : db.Opened) {indexes : List Index}
    (hdb : db.directory.Built (db.registerIndexes indexes).1.catalog)
    (hd : d.Built (db.registerIndexes indexes).1.catalog) :
    ({ db with directory := d } : Database).registerIndexes indexes =
      ({ (db.registerIndexes indexes).1 with directory := d }, (db.registerIndexes indexes).2) := by
  induction indexes generalizing db with
  | nil => rfl
  | cons i indexes ih =>
    have hextends : (db.registerIndex i).1.catalog.Extends
        (db.registerIndexes (i :: indexes)).1.catalog := by
      rw [registerIndexes]
      cases db.registerIndex i with
      | mk first r =>
        cases r with
        | error e => exact .refl
        | ok l => exact extends_registerIndexes first indexes
    have hfirst := registerIndex_withDirectory h (hdb.of_extends hextends) (hd.of_extends hextends)
    have hkept : (db.registerIndex i).1.directory = db.directory :=
      (congrArg (·.1.directory) (registerIndex_withDirectory h (hdb.of_extends hextends)
        (hdb.of_extends hextends)) :)
    have hopened := h.registerIndex i
    rw [registerIndexes] at hdb hd ⊢
    rw [registerIndexes, hfirst]
    cases hi : db.registerIndex i with
    | mk first r =>
      rw [hi] at hkept hopened hdb hd
      cases r with
      | error e => rfl
      | ok l => exact ih hopened (hkept ▸ hdb) hd

theorem install_withDirectory (db : Database) (d : Directory) (queries : List QueryDefinition) :
    ({ db with directory := d } : Database).install queries =
      ({ (db.install queries).1 with directory := d }, (db.install queries).2) := by
  rw [install, install]
  cases Registry.prepare db.catalog queries <;> rfl

/-- A configuration is loaded alike on all directories where its indexes are
built. -/
theorem loadConfiguration_withDirectory (h : db.Opened)
    (hdb : db.directory.Built (db.loadConfiguration c).1.catalog)
    (hd : d.Built (db.loadConfiguration c).1.catalog) :
    ({ db with directory := d } : Database).loadConfiguration c =
      ({ (db.loadConfiguration c).1 with directory := d }, (db.loadConfiguration c).2) := by
  have hkept : (db.registerTables c.tables).1.directory = db.directory :=
    (congrArg (·.1.directory) (registerTables_withDirectory db db.directory c.tables) :)
  have hopened : (db.registerTables c.tables).1.Opened :=
    registerTables_induction (fun h ht => h.registerTable ht) h c.tables
  cases ht : db.registerTables c.tables with
  | mk db' r =>
    rw [ht] at hkept hopened
    cases r with
    | error e => rw [loadConfiguration, loadConfiguration, registerTables_withDirectory, ht]
    | ok _ =>
      rw [catalog_loadConfiguration ht] at hdb hd
      rw [loadConfiguration, loadConfiguration, registerTables_withDirectory, ht]
      dsimp only
      rw [registerIndexes_withDirectory hopened (hkept ▸ hdb) hd]
      cases db'.registerIndexes c.indexes with
      | mk after r =>
        cases r with
        | error e => rfl
        | ok _ => exact install_withDirectory after d c.queries

/-- In a database in order every index is built. -/
theorem InOrder.built (h : db.InOrder) : db.directory.Built db.catalog := by
  intro i hi hempty
  obtain ⟨s, l, hs, -, hl, hsound, hrecorded, hplaces⟩ :=
    h.exists_layout (Catalog.index_eq_ok.mpr hi)
  rw [← Index.treeName_eq hsound.table hl, hplaces.isEmpty_iff] at hempty
  rw [facts, h.table_name hs] at hrecorded
  exact hrecorded.isEmpty_iff.mpr (List.eq_nil_iff_forall_not_mem.mpr fun f hf =>
    hempty f.identity ⟨f, hf, rfl⟩)

/-- Calls that register nothing leave what is known. -/
theorem run_eq_withDirectory (db : Database) {calls : List DatabaseCall}
    (hcalls : ∀ call ∈ calls, call.defines = false) :
    ∃ d, db.run calls = { db with directory := d } := by
  induction calls generalizing db with
  | nil => exact ⟨db.directory, rfl⟩
  | cons call calls ih =>
    obtain ⟨hcall, hcalls⟩ := List.forall_mem_cons.mp hcalls
    obtain ⟨d, hd⟩ : ∃ d, db.call call = { db with directory := d } := by
      cases call with
      | append table f => exact append_eq_withDirectory db table f
      | setHeadBlock block => exact ⟨_, rfl⟩
      | appendToStore table f =>
        rw [Database.call]
        cases db.store table with
        | error e => exact ⟨db.directory, rfl⟩
        | ok s => exact ⟨_, rfl⟩
      | rebuildIndex table index =>
        rw [Database.call]
        cases db.store table with
        | error e => exact ⟨db.directory, rfl⟩
        | ok s => exact ⟨_, rfl⟩
      | registerTable t => cases hcall
      | registerIndex i => cases hcall
      | load c => cases hcall
    rw [run, List.foldl_cons, hd]
    exact ih { db with directory := d } hcalls

/-- A session on a directory: a configuration is loaded, and calls follow. -/
def session (c : Configuration) (d : Directory) (calls : List DatabaseCall) : Database :=
  ((ofDirectory d).loadConfiguration c).1.run calls

/-- The directory that sessions leave that follow each other. -/
def sessions (c : Configuration) (d : Directory) (runs : List (List DatabaseCall)) : Directory :=
  runs.foldl (fun d calls => (session c d calls).directory) d

/-- What a configuration makes known, with a directory that sessions left. -/
def resumed (c : Configuration) (d : Directory) : Database :=
  { ((ofDirectory .empty).loadConfiguration c).1 with directory := d }

/-- Loading a configuration again gives back a database in order. -/
theorem loadConfiguration_resumed (h : (resumed c d).InOrder) :
    (ofDirectory d).loadConfiguration c =
      (resumed c d, ((ofDirectory .empty).loadConfiguration c).2) :=
  loadConfiguration_withDirectory (Opened.ofDirectory .empty) (Directory.built_empty _) h.built

/-- On a new directory a configuration builds nothing. -/
theorem resumed_empty : resumed c .empty = ((ofDirectory .empty).loadConfiguration c).1 :=
  (congrArg Prod.fst (loadConfiguration_withDirectory (Opened.ofDirectory .empty)
    (Directory.built_empty _) (Directory.built_empty _)) :).symm

theorem inOrder_resumed_empty (hsep : c.Separate) : (resumed c .empty).InOrder := by
  rw [resumed_empty]
  exact inOrder_empty.loadConfiguration (within_loadConfiguration.separate hsep)

/-- A session that registers nothing else can be resumed where it ends. -/
theorem session_resumed (hsep : c.Separate) {calls : List DatabaseCall}
    (hcalls : ∀ call ∈ calls, call.defines = false) (h : (resumed c d).InOrder) :
    session c d calls = (resumed c d).run calls ∧
      session c d calls = resumed c (session c d calls).directory ∧
      (session c d calls).InOrder := by
  have hrun : session c d calls = (resumed c d).run calls := by
    rw [session, loadConfiguration_resumed h]
  obtain ⟨d', hd'⟩ := run_eq_withDirectory (resumed c d) hcalls
  refine ⟨hrun, ?_, ?_⟩
  · rw [hrun, hd']
    rfl
  · have hcatalog : ((resumed c d).run calls).catalog.Separate := by
      rw [hd']
      exact within_loadConfiguration.separate hsep
    rw [hrun]
    exact h.run hcatalog

/-- Sessions that register nothing else leave a directory that can be resumed. -/
theorem inOrder_sessions (hsep : c.Separate) {runs : List (List DatabaseCall)}
    (hruns : ∀ calls ∈ runs, ∀ call ∈ calls, call.defines = false) (h : (resumed c d).InOrder) :
    (resumed c (sessions c d runs)).InOrder := by
  induction runs generalizing d with
  | nil => exact h
  | cons calls runs ih =>
    obtain ⟨hcalls, hruns⟩ := List.forall_mem_cons.mp hruns
    obtain ⟨-, hsession, horder⟩ := session_resumed hsep hcalls h
    rw [hsession] at horder
    exact ih hruns horder

/-- Sessions with one configuration are as one session with all their calls. -/
theorem session_sessions (hsep : c.Separate) {runs : List (List DatabaseCall)}
    (hruns : ∀ calls ∈ runs, ∀ call ∈ calls, call.defines = false) (h : (resumed c d).InOrder)
    (calls : List DatabaseCall) :
    session c (sessions c d runs) calls = session c d (runs.flatten ++ calls) := by
  induction runs generalizing d with
  | nil => rfl
  | cons first runs ih =>
    obtain ⟨hfirst, hruns⟩ := List.forall_mem_cons.mp hruns
    obtain ⟨-, hsession, horder⟩ := session_resumed hsep hfirst h
    have hresumed := horder
    rw [hsession] at hresumed
    calc session c (sessions c (session c d first).directory runs) calls
        = session c (session c d first).directory (runs.flatten ++ calls) := ih hruns hresumed
      _ = (session c d first).run (runs.flatten ++ calls) := by
        rw [session, loadConfiguration_resumed hresumed, ← hsession]
      _ = session c d ((first :: runs).flatten ++ calls) := by
        rw [session, session, run, run, run, ← List.foldl_append, List.flatten_cons,
          List.append_assoc]

/-- A database that is reopened with its configuration is the one that was
closed. After any sessions that load one configuration, whether it loads or
not, the head block is kept, the configuration loads as before, and every
request and every append does what it would have done before. -/
theorem reopened_eq_closed (hsep : c.Separate) {runs : List (List DatabaseCall)}
    {calls : List DatabaseCall}
    (hcalls : ∀ run ∈ calls :: runs, ∀ call ∈ run, call.defines = false) :
    let closed := session c (sessions c .empty runs) calls
    let reopened := (ofDirectory closed.directory).loadConfiguration c
    (ofDirectory closed.directory).headBlock = closed.headBlock ∧
      reopened.2 = ((ofDirectory (sessions c .empty runs)).loadConfiguration c).2 ∧
      reopened.1.headBlock = closed.headBlock ∧ (∀ r, reopened.1.query r = closed.query r) ∧
      ∀ table f, reopened.1.append table f = closed.append table f := by
  intro closed reopened
  obtain ⟨hcalls, hruns⟩ := List.forall_mem_cons.mp hcalls
  have hstart := inOrder_sessions hsep hruns (inOrder_resumed_empty hsep)
  obtain ⟨-, hclosed, horder⟩ := session_resumed hsep hcalls hstart
  rw [hclosed] at horder
  have hreopened : reopened = (closed, ((ofDirectory .empty).loadConfiguration c).2) := by
    rw [show closed = resumed c closed.directory from hclosed]
    exact loadConfiguration_resumed horder
  rw [hreopened, loadConfiguration_resumed hstart]
  exact ⟨rfl, rfl, rfl, fun _ => rfl, fun _ _ => rfl⟩

/-- Of two tables with an index one gets a fact in each of two sessions, and a
session between them does nothing. A third session shows both facts, and takes
the latter for known. -/
theorem sample_reopened_eq_closed :
    let configuration : Configuration :=
      { tables := [⟨"item", [⟨"id", .string⟩, ⟨"size", .uint32⟩], ["id"]⟩,
          ⟨"owner", [⟨"name", .string⟩], ["name"]⟩]
        indexes := [⟨"item_by_id", "item", [.asc "id"]⟩, ⟨"owner_by_name", "owner", [.asc "name"]⟩]
        queries := [⟨"items", "item_by_id", true, 10, none⟩] }
    let small : Fact := .live [.string "a"] 2 [.uint32 3]
    let large : Fact := .live [.string "b"] 4 [.uint32 9]
    let closed := session configuration
      (sessions configuration .empty [[.append "item" small, .setHeadBlock 9], []])
      [.append "item" large, .setHeadBlock 7]
    let reopened := ((ofDirectory closed.directory).loadConfiguration configuration).1
    configuration.Separate ∧ reopened.headBlock = 7 ∧
      (reopened.query ⟨"items", 9, [.string ""], [.string "~"], 5⟩).toOption =
        some ⟨["id", "size"], [⟨2, true, [.string "a", .uint32 3]⟩,
          ⟨4, true, [.string "b", .uint32 9]⟩], none⟩ ∧
      (reopened.append "item" large).2.toOption = some .unchanged := by
  intro configuration small large closed reopened
  have hsep : configuration.Separate := by decide +kernel
  have hcalls : ∀ run ∈ [DatabaseCall.append "item" large, .setHeadBlock 7] ::
      [[.append "item" small, .setHeadBlock 9], []], ∀ call ∈ run, call.defines = false := by decide
  obtain ⟨-, -, hhead, hquery, happend⟩ := reopened_eq_closed hsep hcalls
  refine ⟨hsep, hhead.trans ?_, ?_, ?_⟩
  · decide +kernel
  · rw [show reopened.query _ = closed.query _ from hquery _]
    decide +kernel
  · rw [show reopened.append _ _ = closed.append _ _ from happend _ _]
    decide +kernel

end Database
end Chronicle
