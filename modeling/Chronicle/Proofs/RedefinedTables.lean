import Chronicle.Proofs.RecalledRows
import Chronicle.Proofs.VisibleHistories

/-!
# Redefined tables

A catalog lasts as long as its session, so a table may be defined anew in a later
one, and nothing compares the two definitions. Where the definition of a table
agrees with those under which its facts were filed, every index on it that the
catalog accepts is registered. Where this holds of the tables that a query reads,
and its index has a tree that belongs to no other table, the query of a
configuration that loaded answers with the values that were stored for its
fields, or with their defaults. It does not matter how other tables are defined.
-/

namespace Chronicle

open FactStore

namespace FactStore

variable {s : FactStore} {d : Directory} {l : Layout}

/-- Identities of the table all have a place. -/
theorem placeAll_ok {t : Table} (hl : l.Reads t) {entries : List (Bytes × StoredFact)}
    (hids : ∀ e ∈ entries, t.IsIdentity e.2.identity) (previous : Option Bytes)
    (tree : IndexTree) : ∃ count, (placeAll l previous tree entries).2 = .ok count := by
  induction entries generalizing previous tree with
  | nil => exact ⟨0, rfl⟩
  | cons first entries ih =>
    obtain ⟨key, stored⟩ := first
    obtain ⟨hfirst, hids⟩ := List.forall_mem_cons.mp hids
    rw [placeAll]
    dsimp only at hfirst ⊢
    split
    · exact ih hids previous tree
    · rw [hl.positionOfIdentity_eq hfirst]
      dsimp only
      obtain ⟨count, hcount⟩ := ih hids (some (Key.identityPart key))
        (tree.insert (l.placeOf (l.rawBound stored.identity)) stored.identity)
      rw [hcount]
      exact ⟨count + 1, rfl⟩

/-- An index that compiles is registered, if what is stored are identities of the
table. -/
theorem registerIndex_ok (hs : s.Sound)
    (hids : ∀ e ∈ (s.facts d).entries, s.table.IsIdentity e.2.identity) {i : Index}
    (hl : i.compile s.table = .ok l) :
    (s.registerIndex d i).2 = .ok ({ s with layouts := s.layouts.insert i.name l }, l) := by
  obtain ⟨-, -, hreads⟩ := Index.reads_of_compile hs.table hl
  rw [registerIndex, hl]
  dsimp only
  split
  · obtain ⟨count, hcount⟩ := placeAll_ok hreads hids none (d.indexTree l.treeName)
    rw [buildIndex]
    dsimp only
    rw [hcount]
    rfl
  · rfl

end FactStore

/-- The join of a query with the definition of its second table in a catalog. -/
def QueryDefinition.joined? (q : QueryDefinition) (c : Catalog) :
    Option (Option (JoinDefinition × Table)) :=
  match q.join with
  | none => some none
  | some j => (c.tables.get? j.table).map fun second => some (j, second)

namespace Archive

variable {db : Database} {facts : List FiledFact} {closed : List Index} {x : Archive}

/-- Whether each fact of a table was filed under a definition that agrees with
this one. -/
def AgreesOn (x : Archive) (t : Table) : Prop :=
  ∀ y ∈ x.facts, y.table.name = t.name → y.table.Agrees t

instance (x : Archive) (t : Table) : Decidable (x.AgreesOn t) :=
  inferInstanceAs (Decidable (∀ y ∈ x.facts, _ → _))

/-- A definition that agrees with all facts agrees with some of them. -/
theorem AgreesOn.of_subset {db' : Database} {more : List FiledFact} {t : Table}
    (h : AgreesOn ⟨db', more, closed⟩ t) (hfacts : facts ⊆ more) :
    AgreesOn ⟨db, facts, closed⟩ t :=
  fun y hy => h y (hfacts hy)

/-- Whether the tree of an index is that of no index of another table, in this
session or in others. -/
def Unshared (x : Archive) (i : Index) : Prop :=
  ∀ j, x.Knows j → j.treeName = i.treeName → j.table = i.table

theorem unshared_of_indexes {i : Index}
    (h : ∀ j ∈ x.closed ++ x.database.catalog.indexes.values,
      j.treeName = i.treeName → j.table = i.table) : x.Unshared i :=
  fun j hj => h j (List.mem_append.mpr (hj.imp_right Catalog.Knows.mem_values))

namespace Traced

variable {name : String} {s : FactStore}

/-- A store recalls the facts of its table if they were filed under definitions
that agree with its own. -/
theorem recalls (h : x.Traced) (hs : x.database.stores.get? name = some s)
    (hagrees : x.AgreesOn s.table) : s.Recalls x.database.directory x.facts := by
  refine ⟨h.opened.sound hs, fun y hy hname => ?_, h.holds⟩
  obtain ⟨hsound, hfits⟩ := h.fits y hy
  exact ⟨hsound, hfits, hagrees y hy hname⟩

/-- What is stored then are identities of the table. -/
theorem isIdentity (h : x.Traced) (hs : x.database.stores.get? name = some s)
    (hagrees : x.AgreesOn s.table) :
    ∀ e ∈ (s.facts x.database.directory).entries, s.table.IsIdentity e.2.identity := by
  intro e he
  obtain ⟨y, hy, hname, rfl⟩ := h.traced.fact he
  exact ((h.recalls hs hagrees).readable y hy hname).isIdentity

/-- So is what the tree of an index holds, if it is that of no other table. -/
theorem isIdentity_of_index (h : x.Traced) {i : Index}
    (hs : x.database.stores.get? i.table = some s) (hagrees : x.AgreesOn s.table)
    (hunshared : x.Unshared i) :
    ∀ e ∈ (x.database.directory.indexTree i.treeName).entries, s.table.IsIdentity e.2 := by
  intro e he
  obtain ⟨y, hy, hidentity, j, hj, hjtable, htree⟩ := h.traced.index he
  have hname : y.table.name = s.table.name := by
    rw [h.opened.table_name hs, ← hjtable, hunshared j hj htree]
  rw [← hidentity]
  exact ((h.recalls hs hagrees).readable y hy hname).isIdentity

/-- An index that the catalog accepts is registered. -/
theorem registerIndex_ok (h : Traced ⟨db, facts, closed⟩) {i : Index} {l : Layout}
    {catalog : Catalog} (hc : db.catalog.addIndex i = .ok (l, catalog))
    (hs : db.stores.get? i.table = some s) (hagrees : AgreesOn ⟨db, facts, closed⟩ s.table) :
    db.registerIndex i = (⟨(s.registerIndex db.directory i).1, catalog,
      db.stores.insert i.table { s with layouts := s.layouts.insert i.name l }, db.queries⟩,
        .ok l) := by
  obtain ⟨⟨t, ht, hl⟩, -⟩ := Catalog.addIndex_eq_ok hc
  obtain rfl := Option.some.inj ((h.opened.store_table hs).symm.trans ht)
  have hok : (s.registerIndex db.directory i).2 = _ :=
    FactStore.registerIndex_ok (h.opened.sound hs) (h.isIdentity hs hagrees) hl
  have hstore : ({ db with catalog } : Database).store i.table = .ok s :=
    Database.store_eq_ok.mpr hs
  rw [Database.registerIndex, hc]
  dsimp only
  rw [hstore]
  dsimp only
  generalize s.registerIndex db.directory i = result at hok ⊢
  obtain ⟨d, r⟩ := result
  obtain rfl : r = _ := hok
  rfl

/-- A join that is prepared reads the facts of a table of the catalog, if they
were filed under definitions that agree with the present one. -/
theorem exists_joinSource (h : x.Traced) {q : QueryDefinition} {first : Table}
    {join : Option Join} (hjoin : Option.Rel
      (PreparedQuery.compileJoin x.database.catalog q.name first · = .ok ·) q.join join) :
    ∃ source joined, x.database.joinSource join = .ok source ∧
      q.joined? x.database.catalog = some joined ∧
      ((∀ j ∈ joined, x.AgreesOn j.2) →
        Option.Rel (JoinSource.Recalls first x.database.directory x.facts) source joined) := by
  rw [QueryDefinition.joined?]
  generalize q.join = definition at hjoin ⊢
  cases hjoin with
  | none => exact ⟨none, none, rfl, rfl, fun _ => .none⟩
  | @some definition j hj =>
    obtain ⟨second, hsecond, hcompiled⟩ := PreparedQuery.compileJoin_eq_ok.mp hj
    obtain ⟨s, hs⟩ := h.opened.table_store hsecond
    obtain rfl := Option.some.inj ((h.opened.store_table hs).symm.trans hsecond)
    have hsound := (h.opened.sound hs).table
    have hreads := Join.reads_of_compile hsound hcompiled
    have hstore : x.database.store j.table = .ok s := by
      rw [hreads.table_eq, h.opened.table_name hs]
      exact Database.store_eq_ok.mpr hs
    refine ⟨some ⟨j, s⟩, some (definition, s.table), ?_, ?_, fun hagrees => .some ⟨rfl,
      h.recalls hs (hagrees _ rfl), hreads, Join.follows_of_compile hsound hcompiled⟩⟩
    · rw [Database.joinSource, hstore]
      rfl
    · dsimp only
      rw [hsecond]
      rfl

end Traced

/-- A session that has registered the indexes of each table whose definition
agrees with those of its facts. -/
structure Settled (x : Archive) : Prop where
  /-- What is stored comes from the facts. -/
  traced : x.Traced
  /-- An index of such a table is registered. -/
  registered : ∀ {name i s}, x.database.catalog.indexes.get? name = some i →
    x.database.stores.get? i.table = some s → x.AgreesOn s.table →
      ∃ l, s.layouts.get? name = some l

namespace Settled

theorem new : Archive.new.Settled :=
  ⟨.new, by simp [Archive.new, Database.ofDirectory, Catalog.empty]⟩

theorem reopen (h : x.Settled) : (x.event .reopen).Settled :=
  ⟨h.traced.reopen, by simp [event, Database.ofDirectory, Catalog.empty]⟩

theorem registerTable (h : Settled ⟨db, facts, closed⟩) {t : Table} {db' : Database}
    {s : FactStore} (hdb : db.registerTable t = .ok (db', s)) : Settled ⟨db', facts, closed⟩ := by
  refine ⟨h.traced.registerTable hdb, fun {name i s'} hi hs' hagrees => ?_⟩
  obtain ⟨catalog, hc, hstores⟩ := Database.registerTable_eq_ok hdb
  have hindexes : catalog.indexes = db.catalog.indexes := by
    obtain ⟨-, ⟨-, rfl⟩ | ⟨-, rfl⟩⟩ := Catalog.addTable_eq_ok hc <;> rfl
  obtain ⟨hnone, rfl⟩ | ⟨-, rfl⟩ := hstores
  · -- The new store has no index, since the table of an index has a store.
    have hold : db.catalog.indexes.get? name = some i := hindexes ▸ hi
    obtain ⟨known, -, hknown, -⟩ := h.traced.opened.catalog.index_compiles hold
    obtain ⟨store, hstore⟩ := h.traced.opened.table_store hknown
    obtain ⟨he, -⟩ | ⟨-, hs'⟩ := SortedMap.get?_insert_eq_some.mp hs'
    · rw [he, hnone] at hstore
      cases hstore
    · exact h.registered hold hs' hagrees
  · exact h.registered (hindexes ▸ hi) hs' hagrees

theorem registerIndex (h : Settled ⟨db, facts, closed⟩) (i : Index) :
    Settled ⟨(db.registerIndex i).1, facts, closed⟩ := by
  have htraced := h.traced.registerIndex i
  refine ⟨htraced, fun {name j s} hj hs hagrees => ?_⟩
  cases hc : db.catalog.addIndex i with
  | error e =>
    rw [Database.registerIndex_of_error hc] at hj hs
    exact h.registered hj hs hagrees
  | ok result =>
    obtain ⟨l, catalog⟩ := result
    obtain ⟨⟨t, ht, -⟩, hcatalog⟩ := Catalog.addIndex_eq_ok hc
    have hjcases : name = i.name ∧ j = i ∨ db.catalog.indexes.get? name = some j := by
      rw [Database.catalog_registerIndex hc] at hj
      obtain ⟨-, rfl⟩ | ⟨-, rfl⟩ := hcatalog
      · exact (SortedMap.get?_insert_eq_some.mp hj).imp_right And.right
      · exact .inr hj
    by_cases htable : j.table = i.table
    · obtain ⟨before, hbefore⟩ := h.traced.opened.table_store ht
      have hextends := Database.extends_registerIndex db i
      have hsame : s.table = before.table := Option.some.inj
        ((htraced.opened.store_table (htable ▸ hs)).symm.trans
          (hextends.table (h.traced.opened.store_table hbefore)))
      have hagrees : AgreesOn ⟨db, facts, closed⟩ before.table := hsame ▸ hagrees
      rw [htable, h.traced.registerIndex_ok hc hbefore hagrees] at hs
      obtain rfl := Option.some.inj ((SortedMap.get?_insert_self ..).symm.trans hs)
      by_cases hname : name = i.name
      · exact ⟨l, hname ▸ SortedMap.get?_insert_self ..⟩
      · have hold := hjcases.resolve_left fun he => hname he.1
        rw [← htable] at hbefore
        obtain ⟨l', hl'⟩ := h.registered hold hbefore hagrees
        exact ⟨l', SortedMap.get?_insert_eq_some.mpr (.inr ⟨hname, hl'⟩)⟩
    · have hold := hjcases.resolve_left fun he => htable (congrArg Index.table he.2)
      rw [(h.traced.opened.frame_registerIndex i).store_eq j.table htable] at hs
      exact h.registered hold hs hagrees

theorem install (h : Settled ⟨db, facts, closed⟩) (queries : List QueryDefinition) :
    Settled ⟨(db.install queries).1, facts, closed⟩ := by
  refine ⟨h.traced.install queries, ?_⟩
  rw [Database.install]
  cases Registry.prepare db.catalog queries <;> exact h.registered

/-- A call that writes to the directory leaves the indexes registered. -/
theorem withDirectory (h : Settled ⟨db, facts, closed⟩) {d : Directory} {more : List FiledFact}
    (htraced : Traced ⟨{ db with directory := d }, more ++ facts, closed⟩) :
    Settled ⟨{ db with directory := d }, more ++ facts, closed⟩ :=
  ⟨htraced, fun hi hs hagrees =>
    h.registered hi hs (hagrees.of_subset (List.subset_append_right more facts))⟩

/-- Every call keeps a session settled. -/
theorem call (h : x.Settled) (c : DatabaseCall) : (x.event (.call c)).Settled := by
  obtain ⟨db, facts, closed⟩ := x
  have htraced := h.traced.call c
  cases c with
  | registerTable t =>
    rw [event]
    dsimp only [Database.call, Database.files, List.nil_append]
    cases ht : db.registerTable t with
    | error e => exact h
    | ok result => exact h.registerTable ht
  | registerIndex i => exact h.registerIndex i
  | load c =>
    exact Database.loadConfiguration_induction (P := fun db => Settled ⟨db, facts, closed⟩)
      (fun h ht => h.registerTable ht) (fun i h => h.registerIndex i)
      (fun queries h => h.install queries) h c
  | append table f =>
    obtain ⟨d, hd⟩ := Database.append_eq_withDirectory db table f
    rw [event, Database.call, hd] at htraced ⊢
    exact h.withDirectory htraced
  | setHeadBlock block => exact h.withDirectory htraced
  | appendToStore table f =>
    rw [event, Database.call] at htraced ⊢
    cases hstore : db.store table with
    | error e =>
      rw [hstore] at htraced
      exact h.withDirectory htraced
    | ok s =>
      rw [hstore] at htraced
      exact h.withDirectory htraced
  | rebuildIndex table index =>
    rw [event, Database.call] at htraced ⊢
    cases hstore : db.store table with
    | error e => exact h
    | ok s =>
      rw [hstore] at htraced
      exact h.withDirectory htraced

/-- Whatever happens, a session is settled. -/
theorem run (h : x.Settled) (events : List ArchiveEvent) : (x.run events).Settled := by
  induction events generalizing x with
  | nil => exact h
  | cons e events ih =>
    cases e with
    | reopen => exact ih h.reopen
    | call c => exact ih (h.call c)

/-- A query of the catalog reads the facts that were filed, if they were filed
under definitions that agree with those of its tables. -/
theorem exists_source (h : x.Settled) {q : PreparedQuery}
    (hq : PreparedQuery.compile x.database.catalog q.definition = .ok q) :
    ∃ i s l joined, x.database.catalog.index q.definition.index = .ok i ∧
      x.database.catalog.table i.table = .ok s.table ∧ i.compile s.table = .ok l ∧
      q.definition.joined? x.database.catalog = some joined ∧
      (x.AgreesOn s.table → (∀ j ∈ joined, x.AgreesOn j.2) → x.Unshared i →
        ∃ join, x.database.rangeSource q = .ok ⟨s, l, join⟩ ∧
          RangeSource.Recalls ⟨s, l, join⟩ x.database.directory x.facts joined) := by
  have hopened := h.traced.opened
  obtain ⟨i, first, hi, hfirst, hjoin, -, heq⟩ := PreparedQuery.compile_eq_ok.mp hq
  obtain ⟨t, l, ht, hcompiled⟩ := hopened.catalog.index_compiles hi
  obtain ⟨s, hs⟩ := hopened.table_store hfirst
  obtain rfl := Option.some.inj ((hopened.store_table hs).symm.trans hfirst)
  obtain rfl := Option.some.inj (hfirst.symm.trans ht)
  obtain ⟨join, joined, hsource, hjoined, hrecalls⟩ := h.traced.exists_joinSource hjoin
  refine ⟨i, s, l, joined, Catalog.index_eq_ok.mpr hi, Catalog.table_eq_ok.mpr hfirst, hcompiled,
    hjoined, fun hagrees hseconds hunshared => ⟨join, ?_, ?_⟩⟩
  · obtain ⟨l', hl⟩ := h.registered hi hs hagrees
    obtain ⟨-, hcompiled'⟩ := hopened.compile_eq_ok hs hl hi
    obtain rfl := Except.ok.inj (hcompiled.symm.trans hcompiled')
    have htable : q.table = i.table :=
      (congrArg PreparedQuery.table heq).trans (hopened.table_name hs)
    have hstore : x.database.store q.table = .ok s := Database.store_eq_ok.mpr (htable ▸ hs)
    have hlayout : s.layout q.definition.index = .ok l := layout_eq_ok.mpr hl
    rw [Database.rangeSource, hstore]
    dsimp only [bind, Except.bind]
    rw [hlayout]
    dsimp only
    rw [hsource]
    rfl
  · obtain ⟨-, -, hreads⟩ := Index.reads_of_compile (hopened.sound hs).table hcompiled
    have hindexed := h.traced.isIdentity_of_index hs hagrees hunshared
    rw [← Index.treeName_eq (hopened.sound hs).table hcompiled] at hindexed
    exact ⟨h.traced.recalls hs hagrees, hreads, hindexed, hrecalls hseconds⟩

/-- A query of the catalog that is installed answers between bounds, with rows
that the filed facts tell. -/
theorem exists_response (h : x.Settled) {q : PreparedQuery}
    (hq : PreparedQuery.compile x.database.catalog q.definition = .ok q)
    (hinstalled : x.database.queries.find q.definition.name = .ok q) :
    ∃ i t l columns joined, x.database.catalog.index q.definition.index = .ok i ∧
      x.database.catalog.table i.table = .ok t ∧ i.compile t = .ok l ∧
      q.definition.columns? x.database.catalog = some columns ∧
      q.definition.joined? x.database.catalog = some joined ∧
      (x.AgreesOn t → (∀ j ∈ joined, x.AgreesOn j.2) → x.Unshared i →
        ∀ r : Request, r.query = q.definition.name →
          l.checkBound r.first = .ok () ∧ l.checkBound r.last = .ok () →
          ∃ response, x.database.query r = .ok response ∧
            response.Answers columns (x.database.snapshot q.definition r)
              (min r.maxResults q.definition.maxResults).toNat l ∧
            ∀ row ∈ response.rows, ∃ identity, t.recalled joined x.facts
              (x.database.snapshot q.definition r) identity = some row) := by
  obtain ⟨i, s, l, joined, hi, ht, hl, hjoined, hreads⟩ := h.exists_source hq
  obtain ⟨-, t, -, -, -, hcolumns, -⟩ := PreparedQuery.columns_of_compile hq
  refine ⟨i, s.table, l, _, joined, hi, ht, hl, hcolumns, hjoined,
    fun hagrees hseconds hunshared r hr => ?_⟩
  rintro ⟨hfirst, hlast⟩
  obtain ⟨join, hsource, hrecalls⟩ := hreads hagrees hseconds hunshared
  obtain ⟨⟨-, -, hshown⟩, hlabels⟩ := h.traced.opened.reads_of_rangeSource hq hsource
  rw [Option.some.inj (hcolumns.symm.trans hshown)]
  obtain ⟨page, hpage, hanswers, hrows⟩ := hrecalls.exists_answer
    (Layout.checkBound_eq_ok.mp hfirst) (Layout.checkBound_eq_ok.mp hlast)
    (x.database.snapshot q.definition r) (Database.pageLimit q.definition r)
  rw [Database.query_eq (hr ▸ hinstalled) hsource, hpage]
  exact ⟨_, rfl, hlabels ▸ hanswers, hrows⟩

end Settled

/-- The session of a run of calls. -/
theorem run_calls (x : Archive) (calls : List DatabaseCall) :
    (x.run (calls.map .call)).database = x.database.run calls := by
  induction calls generalizing x with
  | nil => rfl
  | cons c calls ih => exact ih (x.event (.call c))

/-- The one session on a new directory has one definition of each table. -/
theorem agreesOn_of_calls (calls : List DatabaseCall) {name : String} {s : FactStore}
    (hs : (new.run (calls.map .call)).database.stores.get? name = some s) :
    (new.run (calls.map .call)).AgreesOn s.table := by
  have hopened := (Traced.new.run (calls.map .call)).opened
  intro y hy hname
  have hdefined := table_of_mem_run (x := new) (.ofDirectory _) nofun y hy
  have htable := hopened.store_table hs
  rw [← hopened.table_name hs, ← hname, hdefined] at htable
  exact Option.some.inj htable ▸ .refl _

/-- A query of a configuration that loads answers each request whose bounds fit
its index, with values of the declared types that were stored for the fields of
the row, or their defaults. The sessions before may have done anything, and their
definitions may differ. It is asked of the tables that the query reads that their
facts were filed under definitions that agree with the present ones, and of its
index that no other table has its tree. An index on a table whose facts agree is
registered if the catalog accepts it. -/
theorem loaded_query_answers {before : List ArchiveEvent} {c : Configuration}
    {after : List DatabaseCall}
    (hload : ((new.run before).database.loadConfiguration c).2 = .ok ())
    (hafter : ∀ call ∈ after, call.loads = false) :
    let x := new.run (before ++ .call (.load c) :: after.map .call)
    (∀ definition ∈ c.queries, ∃ i t l columns joined,
      x.database.catalog.index definition.index = .ok i ∧
      x.database.catalog.table i.table = .ok t ∧ i.compile t = .ok l ∧
      definition.columns? x.database.catalog = some columns ∧
      definition.joined? x.database.catalog = some joined ∧
      (x.AgreesOn t → (∀ j ∈ joined, x.AgreesOn j.2) → x.Unshared i →
        ∀ r : Request, r.query = definition.name →
          l.checkBound r.first = .ok () ∧ l.checkBound r.last = .ok () →
          let block := if definition.limitBlock then min r.maxBlock x.database.headBlock
            else 18446744073709551615
          ∃ response, x.database.query r = .ok response ∧
            response.Answers columns block (min r.maxResults definition.maxResults).toNat l ∧
            ∀ row ∈ response.rows, ∃ identity,
              t.recalled joined x.facts block identity = some row)) ∧
      ∀ i l catalog t, x.database.catalog.addIndex i = .ok (l, catalog) →
        x.database.catalog.table i.table = .ok t → x.AgreesOn t →
          (x.database.registerIndex i).2 = .ok l := by
  intro x
  have h : x.Settled := Settled.new.run _
  constructor
  · intro definition hdefinition
    obtain ⟨loaded, hloaded⟩ : ∃ loaded, (new.run before).database.loadConfiguration c =
        (loaded, .ok ()) := ⟨_, Prod.ext rfl hload⟩
    have hdatabase : x.database = loaded.run after := by
      have hrun : x = ((new.run before).event (.call (.load c))).run (after.map .call) :=
        List.foldl_append ..
      rw [hrun, run_calls]
      exact congrArg (Database.run · after) (congrArg Prod.fst hloaded)
    obtain ⟨-, -, hprepare⟩ := Database.loadConfiguration_eq_ok hloaded
    obtain ⟨q, hget, hcompiled⟩ := (Registry.find_of_prepareFrom hprepare).2 definition hdefinition
    obtain rfl := PreparedQuery.definition_of_compile hcompiled
    refine h.exists_response ?_ ?_
    · rw [hdatabase]
      exact PreparedQuery.compile_mono (Database.extends_run loaded after) hcompiled
    · rw [hdatabase, Database.queries_run loaded hafter]
      exact Registry.find_eq_ok.mpr hget
  · intro i l catalog t hc ht hagrees
    have ht := Catalog.table_eq_ok.mp ht
    obtain ⟨s, hs⟩ := h.traced.opened.table_store ht
    obtain rfl := Option.some.inj ((h.traced.opened.store_table hs).symm.trans ht)
    exact congrArg Prod.snd (h.traced.registerIndex_ok hc hs hagrees)

/-- A table gets a further field in a second session, which also has a fact of
its own, and the field of another table gets another type. The fact of the first
session shows the default of the further field and the level of its user, and a
further index is built from both. -/
theorem sample_loaded_query_answers :
    let log (type : ScalarType) : Table := ⟨"log", [⟨"n", .uint64⟩, ⟨"entry", type⟩], ["n"]⟩
    let query : QueryDefinition :=
      ⟨"kvs", "by_k", true, 10, some ⟨"user", ["k"], [⟨"level", none⟩]⟩⟩
    let configuration (fields : List Field) (type : ScalarType) : Configuration :=
      { tables := [⟨"kv", [⟨"k", .string⟩, ⟨"v", .int64⟩] ++ fields, ["k"]⟩,
          ⟨"user", [⟨"name", .string⟩, ⟨"level", .uint32⟩], ["name"]⟩, log type]
        indexes := [⟨"by_k", "kv", [.asc "k"]⟩]
        queries := [query] }
    let before : List ArchiveEvent := [.call (.load (configuration [] .int64)),
      .call (.append "kv" (.live [.string "a"] 1 [.int64 7])),
      .call (.append "user" (.live [.string "a"] 1 [.uint32 4])),
      .call (.append "log" (.live [.uint64 1] 1 [.int64 9])), .reopen]
    let after : List DatabaseCall := [.append "kv" (.live [.string "b"] 2 [.int64 5, .uint32 3])]
    let x := new.run
      (before ++ .call (.load (configuration [⟨"w", .uint32⟩] .string)) :: after.map .call)
    let r : Request := ⟨"kvs", 9, [.string ""], [.string "~"], 5⟩
    ¬x.AgreesOn (log .string) ∧
      (∃ response l, x.database.query r = .ok response ∧
        response.Answers [("k", .string), ("v", .int64), ("w", .uint32), ("level", .uint32)]
          2 5 l ∧
        response.rows = [⟨1, true, [.string "a", .int64 7, .uint32 0, .uint32 4]⟩,
          ⟨2, true, [.string "b", .int64 5, .uint32 3, .uint32 0]⟩]) ∧
      ∃ l, (x.database.registerIndex ⟨"by_k_desc", "kv", [.desc "k"]⟩).2 = .ok l := by
  intro log query configuration before after x r
  have hload : ((new.run before).database.loadConfiguration
      (configuration [⟨"w", .uint32⟩] .string)).2 = .ok () := eq_ok_of_toOption (by decide +kernel)
  have hafter : ∀ call ∈ after, call.loads = false := by decide
  let kv : Table := ⟨"kv", [⟨"k", .string⟩, ⟨"v", .int64⟩, ⟨"w", .uint32⟩], ["k"]⟩
  let user : Table := ⟨"user", [⟨"name", .string⟩, ⟨"level", .uint32⟩], ["name"]⟩
  let byK : Index := ⟨"by_k", "kv", [.asc "k"]⟩
  have hagrees : x.AgreesOn kv ∧ x.AgreesOn user := by decide +kernel
  have hunshared : x.Unshared byK := unshared_of_indexes (by decide +kernel)
  have hkv : x.database.catalog.table "kv" = .ok kv := eq_ok_of_toOption (by decide +kernel)
  obtain ⟨hqueries, hindexes⟩ := loaded_query_answers hload hafter
  refine ⟨by decide +kernel, ?_, ?_⟩
  · obtain ⟨i, t, l, columns, joined, hi, ht, hl, hcolumns, hjoined, hanswers⟩ :=
      hqueries query (List.mem_singleton.mpr rfl)
    have hindex : x.database.catalog.index "by_k" = .ok byK := eq_ok_of_toOption (by decide +kernel)
    obtain rfl := Except.ok.inj (hindex.symm.trans hi)
    obtain rfl := Except.ok.inj (hkv.symm.trans ht)
    have hlayout : byK.compile kv = .ok ⟨"by_k", "kv", [⟨"k", 0, .string, none, .asc⟩]⟩ :=
      eq_ok_of_toOption (by decide +kernel)
    obtain rfl := Except.ok.inj (hlayout.symm.trans hl)
    have hknown : query.columns? x.database.catalog =
        some [("k", .string), ("v", .int64), ("w", .uint32), ("level", .uint32)] := by
      decide +kernel
    have hsecond : query.joined? x.database.catalog =
        some (some (⟨"user", ["k"], [⟨"level", none⟩]⟩, user)) := by
      decide +kernel
    obtain rfl := Option.some.inj (hcolumns.symm.trans hknown)
    obtain rfl := Option.some.inj (hjoined.symm.trans hsecond)
    obtain ⟨response, hresponse, h, -⟩ :=
      hanswers hagrees.1 (by rintro j ⟨⟩; exact hagrees.2) hunshared r rfl ⟨rfl, rfl⟩
    have hhead : x.database.headBlock = 2 := by decide +kernel
    have hblock : (if query.limitBlock then min r.maxBlock x.database.headBlock
        else 18446744073709551615) = 2 := by
      rw [hhead]
      decide
    rw [hblock] at h
    have hrows : (x.database.query r).toOption.map Response.rows =
        some [⟨1, true, [.string "a", .int64 7, .uint32 0, .uint32 4]⟩,
          ⟨2, true, [.string "b", .int64 5, .uint32 3, .uint32 0]⟩] := by
      decide +kernel
    rw [show x.database.query r = .ok response from hresponse] at hrows
    exact ⟨response, _, hresponse, h, Option.some.inj hrows⟩
  · have haccepted : (x.database.catalog.addIndex ⟨"by_k_desc", "kv", [.desc "k"]⟩).isOk =
        true := by
      decide +kernel
    cases hc : x.database.catalog.addIndex ⟨"by_k_desc", "kv", [.desc "k"]⟩ with
    | error e =>
      rw [hc] at haccepted
      cases haccepted
    | ok result => exact ⟨_, hindexes _ result.1 result.2 kv hc hkv hagrees.1⟩

/-- A later session may define the payload of a table anew. Its configuration
loads, and its query shows the number that was stored in a column of strings. -/
theorem not_loaded_query_answers :
    let configuration (type : ScalarType) : Configuration :=
      { tables := [⟨"kv", [⟨"k", .string⟩, ⟨"v", type⟩], ["k"]⟩]
        indexes := [⟨"by_k", "kv", [.asc "k"]⟩]
        queries := [⟨"kvs", "by_k", true, 10, none⟩] }
    let before := new.run [.call (.load (configuration .int64)),
      .call (.append "kv" (.live [.string "a"] 1 [.int64 7])), .reopen]
    let x := before.event (.call (.load (configuration .string)))
    (before.database.loadConfiguration (configuration .string)).2 = .ok () ∧
      ∃ response, x.database.query ⟨"kvs", 9, [.string ""], [.string "~"], 5⟩ = .ok response ∧
        (⟨"kvs", "by_k", true, 10, none⟩ : QueryDefinition).columns? x.database.catalog =
          some [("k", .string), ("v", .string)] ∧
        ¬∀ row ∈ response.rows, row.values.map Value.type = [.string, .string] := by
  intro configuration before x
  have hresponse : x.database.query ⟨"kvs", 9, [.string ""], [.string "~"], 5⟩ =
      .ok ⟨["k", "v"], [⟨1, true, [.string "a", .int64 7]⟩], none⟩ :=
    eq_ok_of_toOption (by decide +kernel)
  exact ⟨eq_ok_of_toOption (by decide +kernel), _, hresponse, by decide +kernel, by decide⟩

end Archive
end Chronicle
