import Chronicle.Proofs.Sessions

/-!
# Configurations

What loading a configuration makes known. A session that starts with it knows
definitions of the configuration and no others. Where it loads without an error
the session knows all of them, so two sessions that loaded one configuration
share what it needs, whatever else they know.
-/

namespace Chronicle

open FactStore

/-- Whether different indexes of a configuration have different trees. -/
def Configuration.Separate (c : Configuration) : Prop :=
  ∀ i ∈ c.indexes, ∀ j ∈ c.indexes, i.treeName = j.treeName → (i.table, i.name) = (j.table, j.name)

instance (c : Configuration) : Decidable c.Separate :=
  inferInstanceAs (Decidable (∀ i ∈ c.indexes, ∀ j ∈ c.indexes, _ → _))

namespace Catalog

variable {catalog catalog' : Catalog} {c : Configuration}

/-- A catalog with definitions of a configuration alone. -/
structure Within (catalog : Catalog) (c : Configuration) : Prop where
  /-- Its tables are among those of the configuration. -/
  table_mem : ∀ {name t}, catalog.tables.get? name = some t → t ∈ c.tables
  /-- Its indexes are among those of the configuration. -/
  index_mem : ∀ {name i}, catalog.indexes.get? name = some i → i ∈ c.indexes

theorem within_empty (c : Configuration) : empty.Within c := ⟨by simp [empty], by simp [empty]⟩

theorem Within.addTable (h : catalog.Within c) {t : Table} (ht : t ∈ c.tables)
    (hc : catalog.addTable t = .ok catalog') : catalog'.Within c := by
  obtain ⟨-, ⟨-, rfl⟩ | ⟨-, rfl⟩⟩ := addTable_eq_ok hc
  · refine ⟨fun {name t'} ht' => ?_, h.index_mem⟩
    obtain ⟨-, rfl⟩ | ⟨-, ht'⟩ := SortedMap.get?_insert_eq_some.mp ht'
    · exact ht
    · exact h.table_mem ht'
  · exact h

theorem Within.addIndex (h : catalog.Within c) {i : Index} {l : Layout} (hi : i ∈ c.indexes)
    (hc : catalog.addIndex i = .ok (l, catalog')) : catalog'.Within c := by
  obtain ⟨-, ⟨-, rfl⟩ | ⟨-, rfl⟩⟩ := addIndex_eq_ok hc
  · refine ⟨h.table_mem, fun {name j} hj => ?_⟩
    obtain ⟨-, rfl⟩ | ⟨-, hj⟩ := SortedMap.get?_insert_eq_some.mp hj
    · exact hi
    · exact h.index_mem hj
  · exact h

/-- A catalog within a separate configuration is separate. -/
theorem Within.separate (h : catalog.Within c) (hsep : c.Separate) : catalog.Separate := by
  intro i j hi hj htree
  exact eq_of_name_eq hi hj
    (congrArg Prod.snd (hsep i (h.index_mem hi) j (h.index_mem hj) htree))

/-- After a table was added the catalog has it. -/
theorem table_of_addTable {t : Table} (h : catalog.addTable t = .ok catalog') :
    catalog'.tables.get? t.name = some t := by
  obtain ⟨-, ⟨-, rfl⟩ | ⟨hknown, rfl⟩⟩ := addTable_eq_ok h
  · exact SortedMap.get?_insert_self ..
  · exact hknown

end Catalog

/-- Queries that are prepared against a catalog are prepared alike against a
larger one. -/
theorem Registry.prepareFrom_mono {catalog catalog' : Catalog} (h : catalog.Extends catalog')
    {queries : List QueryDefinition} {r r' : Registry}
    (hr : prepareFrom catalog r queries = .ok r') : prepareFrom catalog' r queries = .ok r' := by
  induction queries generalizing r with
  | nil => exact hr
  | cons definition queries ih =>
    obtain ⟨q, hq, hnew, hrest⟩ := prepareFrom_cons_eq_ok.mp hr
    exact prepareFrom_cons_eq_ok.mpr ⟨q, PreparedQuery.compile_mono h hq, hnew, ih hrest⟩

/-- Preparing further queries adds them to those before. -/
theorem Registry.added_of_prepareFrom {catalog : Catalog} {queries : List QueryDefinition}
    {r r' : Registry} (h : prepareFrom catalog r queries = .ok r') :
    (queries.map QueryDefinition.name).Nodup ∧
      (∀ definition ∈ queries, r.get? definition.name = none ∧
        ∃ q, PreparedQuery.compile catalog definition = .ok q) ∧
      r'.size = r.size + queries.length ∧
      ∀ name q, r'.get? name = some q ↔ r.get? name = some q ∨
        ∃ definition ∈ queries, definition.name = name ∧
          PreparedQuery.compile catalog definition = .ok q := by
  induction queries generalizing r with
  | nil =>
    cases h
    simp
  | cons definition queries ih =>
    obtain ⟨q, hq, hnew, hrest⟩ := prepareFrom_cons_eq_ok.mp h
    obtain ⟨hnodup, hothers, hsize, hget⟩ := ih hrest
    have hnames : ∀ other ∈ queries, other.name ≠ definition.name ∧ r.get? other.name = none :=
      fun other hother => SortedMap.get?_insert_eq_none.mp (hothers other hother).1
    refine ⟨?_, ?_, ?_, fun name q' => ?_⟩
    · rw [List.map_cons, List.nodup_cons]
      refine ⟨fun hmem => ?_, hnodup⟩
      obtain ⟨other, hother, hname⟩ := List.mem_map.mp hmem
      exact (hnames other hother).1 hname
    · exact List.forall_mem_cons.mpr ⟨⟨hnew, q, hq⟩, fun other hother =>
        ⟨(hnames other hother).2, (hothers other hother).2⟩⟩
    · have hadded : (r.insert definition.name q).size = r.size + 1 :=
        SortedMap.size_insert (fun v hv => by
          rw [SortedMap.get?_eq_some_iff.mpr hv] at hnew
          cases hnew) q
      rw [hsize, hadded, List.length_cons]
      omega
    · rw [hget, SortedMap.get?_insert_eq_some]
      constructor
      · rintro ((⟨rfl, rfl⟩ | ⟨-, hold⟩) | ⟨other, hother, hprepared⟩)
        · exact .inr ⟨definition, List.mem_cons_self .., rfl, hq⟩
        · exact .inl hold
        · exact .inr ⟨other, List.mem_cons_of_mem _ hother, hprepared⟩
      · rintro (hold | ⟨other, hother, rfl, hprepared⟩)
        · refine .inl (.inr ⟨?_, hold⟩)
          rintro rfl
          rw [hnew] at hold
          cases hold
        · obtain rfl | hother := List.mem_cons.mp hother
          · rw [hq] at hprepared
            exact .inl (.inl ⟨rfl, (Except.ok.inj hprepared).symm⟩)
          · exact .inr ⟨other, hother, rfl, hprepared⟩

/-- Each query of a list that is prepared is found under its name, and so are
those before. -/
theorem Registry.find_of_prepareFrom {catalog : Catalog} {queries : List QueryDefinition}
    {r r' : Registry} (hr : prepareFrom catalog r queries = .ok r') :
    (∀ name q, r.get? name = some q → r'.get? name = some q) ∧
      ∀ definition ∈ queries, ∃ q, r'.get? definition.name = some q ∧
        PreparedQuery.compile catalog definition = .ok q := by
  obtain ⟨-, hprepared, -, hget⟩ := added_of_prepareFrom hr
  refine ⟨fun name q hq => (hget name q).mpr (.inl hq), fun definition hmem => ?_⟩
  obtain ⟨-, q, hq⟩ := hprepared definition hmem
  exact ⟨q, (hget _ q).mpr (.inr ⟨definition, hmem, rfl, hq⟩), hq⟩

namespace Database

variable {db after : Database} {c : Configuration} {d : Directory}

theorem catalog_registerTable {t : Table} {s : FactStore}
    (h : db.registerTable t = .ok (after, s)) :
    db.catalog.addTable t = .ok after.catalog := by
  obtain ⟨catalog, hc, ⟨-, rfl⟩ | ⟨-, rfl⟩⟩ := registerTable_eq_ok h <;> exact hc

/-- Registering tables keeps the definitions. -/
theorem extends_registerTables (db : Database) (tables : List Table) :
    db.catalog.Extends (db.registerTables tables).1.catalog :=
  registerTables_induction (P := fun after => db.catalog.Extends after.catalog)
    (fun h ht => h.trans (extends_registerTable ht)) .refl tables

/-- Registering indexes keeps the definitions. -/
theorem extends_registerIndexes (db : Database) (indexes : List Index) :
    db.catalog.Extends (db.registerIndexes indexes).1.catalog :=
  registerIndexes_induction (P := fun after => db.catalog.Extends after.catalog)
    (fun i h => h.trans (extends_registerIndex _ i)) .refl indexes

/-- Once its tables are registered, a configuration leaves the catalog that its
indexes leave. -/
theorem catalog_loadConfiguration (ht : db.registerTables c.tables = (after, .ok ())) :
    (db.loadConfiguration c).1.catalog = (after.registerIndexes c.indexes).1.catalog := by
  rw [loadConfiguration, ht]
  dsimp only
  cases after.registerIndexes c.indexes with
  | mk last r =>
    cases r with
    | error e => rfl
    | ok _ => exact catalog_install last c.queries

theorem within_registerTables (h : db.catalog.Within c) {tables : List Table}
    (htables : ∀ t ∈ tables, t ∈ c.tables) : (db.registerTables tables).1.catalog.Within c := by
  induction tables generalizing db with
  | nil => exact h
  | cons t tables ih =>
    obtain ⟨hmem, htables⟩ := List.forall_mem_cons.mp htables
    rw [registerTables]
    cases ht : db.registerTable t with
    | error e => exact h
    | ok r => exact ih (h.addTable hmem (catalog_registerTable ht)) htables

theorem within_registerIndexes (h : db.catalog.Within c) {indexes : List Index}
    (hindexes : ∀ i ∈ indexes, i ∈ c.indexes) :
    (db.registerIndexes indexes).1.catalog.Within c := by
  induction indexes generalizing db with
  | nil => exact h
  | cons i indexes ih =>
    obtain ⟨hmem, hindexes⟩ := List.forall_mem_cons.mp hindexes
    have hfirst : (db.registerIndex i).1.catalog.Within c := by
      cases hc : db.catalog.addIndex i with
      | error e =>
        rw [registerIndex_of_error hc]
        exact h
      | ok result =>
        rw [catalog_registerIndex hc]
        exact h.addIndex hmem hc
    rw [registerIndexes]
    cases hi : db.registerIndex i with
    | mk first r =>
      rw [hi] at hfirst
      cases r with
      | error e => exact hfirst
      | ok l => exact ih hfirst hindexes

/-- A new session that loads a configuration knows nothing else, whether all of
it loads or not. -/
theorem within_loadConfiguration : ((ofDirectory d).loadConfiguration c).1.catalog.Within c := by
  have htables : ((ofDirectory d).registerTables c.tables).1.catalog.Within c :=
    within_registerTables (Catalog.within_empty c) fun _ => id
  cases ht : (ofDirectory d).registerTables c.tables with
  | mk first r =>
    rw [ht] at htables
    cases r with
    | error e =>
      rw [loadConfiguration, ht]
      exact htables
    | ok _ =>
      rw [catalog_loadConfiguration ht]
      exact within_registerIndexes htables fun _ => id

/-- Tables that are registered without an error are known. -/
theorem table_of_registerTables {tables : List Table}
    (h : db.registerTables tables = (after, .ok ())) :
    ∀ t ∈ tables, after.catalog.tables.get? t.name = some t := by
  induction tables generalizing db with
  | nil => simp
  | cons t tables ih =>
    rw [registerTables] at h
    cases ht : db.registerTable t with
    | error e => simp [ht] at h
    | ok r =>
      simp only [ht] at h
      have hextends := extends_registerTables r.1 tables
      rw [h] at hextends
      exact List.forall_mem_cons.mpr
        ⟨hextends.table (Catalog.table_of_addTable (catalog_registerTable ht)), ih h⟩

/-- Indexes that are registered without an error are known. -/
theorem knows_of_registerIndexes {indexes : List Index}
    (h : db.registerIndexes indexes = (after, .ok ())) :
    ∀ i ∈ indexes, after.catalog.Knows i := by
  induction indexes generalizing db with
  | nil => simp
  | cons i indexes ih =>
    rw [registerIndexes] at h
    cases hi : db.registerIndex i with
    | mk first r =>
      cases r with
      | error e => simp [hi] at h
      | ok l =>
        simp only [hi] at h
        have hextends := extends_registerIndexes first indexes
        rw [h] at hextends
        have hknows : first.catalog.Knows i := by
          cases hc : db.catalog.addIndex i with
          | error e => simp [registerIndex, hc] at hi
          | ok result =>
            have hcatalog := catalog_registerIndex hc
            rw [hi] at hcatalog
            rw [hcatalog]
            exact Catalog.knows_of_addIndex hc
        exact List.forall_mem_cons.mpr ⟨hextends.knows hknows, ih h⟩

/-- A configuration that loads has its tables and indexes registered and its
queries prepared. -/
theorem loadConfiguration_eq_ok (h : db.loadConfiguration c = (after, .ok ())) :
    (∀ t ∈ c.tables, after.catalog.tables.get? t.name = some t) ∧
      (∀ i ∈ c.indexes, after.catalog.Knows i) ∧
      Registry.prepare after.catalog c.queries = .ok after.queries := by
  rw [loadConfiguration] at h
  cases ht : db.registerTables c.tables with
  | mk db₁ r₁ =>
    cases r₁ with
    | error e => simp [ht] at h
    | ok _ =>
      cases hi : db₁.registerIndexes c.indexes with
      | mk db₂ r₂ =>
        cases r₂ with
        | error e => simp [ht, hi] at h
        | ok _ =>
          simp only [ht, hi, install] at h
          have hextends := extends_registerIndexes db₁ c.indexes
          rw [hi] at hextends
          cases hr : Registry.prepare db₂.catalog c.queries with
          | error e => simp [hr] at h
          | ok r =>
            simp only [hr, Prod.mk.injEq, and_true] at h
            subst h
            have hknown := knows_of_registerIndexes hi
            exact ⟨fun t hmem => hextends.table (table_of_registerTables ht t hmem), hknown, hr⟩

/-- A session in which a configuration loaded knows what the configuration
makes known by itself. -/
theorem extends_of_loadConfiguration (h : db.loadConfiguration c = (after, .ok ())) :
    ((ofDirectory d).loadConfiguration c).1.catalog.Extends after.catalog := by
  obtain ⟨htables, hindexes, -⟩ := loadConfiguration_eq_ok h
  have hwithin : ((ofDirectory d).loadConfiguration c).1.catalog.Within c :=
    within_loadConfiguration
  have hsound := ((Opened.ofDirectory d).call (.load c)).catalog
  refine ⟨fun {name t} ht => ?_, fun {name i} hi => ?_⟩
  · rw [← hsound.table_name ht]
    exact htables t (hwithin.table_mem ht)
  · rw [← hsound.index_name hi]
    exact hindexes i (hwithin.index_mem hi)

end Database
end Chronicle
