import Chronicle.Proofs.JoinedRows
import Chronicle.Query.Registry

/-!
# Catalogs

A catalog that grew by checked definitions holds tables without a flaw and
indexes that compile, each under its own name. It only grows, so what was
prepared against it once stays prepared. Two indexes that share the name of
their tree would overwrite each other, which a separate catalog excludes.
-/

namespace Chronicle

/-- The name of the tree of an index. -/
def Index.treeName (i : Index) : String := i.table ++ ":" ++ i.name

/-- A compiled index has the tree of its definition. -/
theorem Index.treeName_eq {i : Index} {t : Table} (ht : t.Sound) {l : Layout}
    (h : i.compile t = .ok l) : l.treeName = i.treeName := by
  obtain ⟨hname, htable, hreads⟩ := reads_of_compile ht h
  rw [Layout.treeName, hreads.table_eq, hname, Index.treeName, htable]

namespace Catalog

variable {c c' c'' : Catalog}

/-- Whether an index is in the catalog. -/
def Knows (c : Catalog) (i : Index) : Prop := c.indexes.get? i.name = some i

instance (c : Catalog) (i : Index) : Decidable (c.Knows i) := inferInstanceAs (Decidable (_ = _))

/-- A catalog of checked definitions. -/
structure Sound (c : Catalog) : Prop where
  /-- A table has no flaw. -/
  table_sound : ∀ {name t}, c.tables.get? name = some t → t.Sound
  /-- A table has its own name. -/
  table_name : ∀ {name t}, c.tables.get? name = some t → t.name = name
  /-- An index has its own name. -/
  index_name : ∀ {name i}, c.indexes.get? name = some i → i.name = name
  /-- An index compiles on its table. -/
  index_compiles : ∀ {name i}, c.indexes.get? name = some i →
    ∃ t l, c.tables.get? i.table = some t ∧ i.compile t = .ok l

/-- A catalog with all definitions of another. -/
structure Extends (c c' : Catalog) : Prop where
  /-- Its tables are kept. -/
  table : ∀ {name t}, c.tables.get? name = some t → c'.tables.get? name = some t
  /-- Its indexes are kept. -/
  index : ∀ {name i}, c.indexes.get? name = some i → c'.indexes.get? name = some i

/-- Whether different indexes have different trees. -/
def Separate (c : Catalog) : Prop :=
  ∀ i j, c.Knows i → c.Knows j → i.treeName = j.treeName → i = j

theorem sound_empty : Sound empty := ⟨by simp [empty], by simp [empty], by simp [empty],
  by simp [empty]⟩

theorem Extends.refl : Extends c c := ⟨id, id⟩

theorem Extends.trans (h : Extends c c') (h' : Extends c' c'') : Extends c c'' :=
  ⟨fun ht => h'.table (h.table ht), fun hi => h'.index (h.index hi)⟩

theorem Extends.knows (h : Extends c c') {i : Index} (hi : c.Knows i) : c'.Knows i := h.index hi

theorem Separate.of_extends (hs : Separate c') (h : Extends c c') : Separate c :=
  fun i j hi hj => hs i j (h.knows hi) (h.knows hj)

theorem Knows.mem_values {i : Index} (hi : c.Knows i) : i ∈ c.indexes.values :=
  List.mem_map.mpr ⟨(i.name, i), SortedMap.get?_eq_some_iff.mp hi, rfl⟩

/-- It is enough to compare the indexes that are listed. -/
theorem separate_of_indexes
    (h : ∀ i ∈ c.indexes.values, ∀ j ∈ c.indexes.values, i.treeName = j.treeName → i = j) :
    c.Separate := fun i j hi hj => h i hi.mem_values j hj.mem_values

/-- One name stands for one definition. -/
theorem eq_of_name_eq {i j : Index} (hi : c.Knows i) (hj : c.Knows j) (h : i.name = j.name) :
    i = j := by
  rw [Knows, h, hj] at hi
  exact (Option.some.inj hi).symm

theorem table_eq_ok {name : String} {t : Table} :
    c.table name = .ok t ↔ c.tables.get? name = some t := by
  rw [table]
  cases c.tables.get? name <;> simp

theorem index_eq_ok {name : String} {i : Index} :
    c.index name = .ok i ↔ c.indexes.get? name = some i := by
  rw [index]
  cases c.indexes.get? name <;> simp

/-- A table is added under its name, or is there already. -/
theorem addTable_eq_ok {t : Table} (h : c.addTable t = .ok c') :
    t.Sound ∧ (c.tables.get? t.name = none ∧ c' = { c with tables := c.tables.insert t.name t } ∨
      c.tables.get? t.name = some t ∧ c' = c) := by
  rw [addTable] at h
  cases hvalid : t.validate with
  | error e => simp [hvalid, bind, Except.bind] at h
  | ok _ =>
    refine ⟨Table.validate_eq_ok.mp hvalid, ?_⟩
    simp only [hvalid, bind, Except.bind] at h
    cases hknown : c.tables.get? t.name with
    | none =>
      simp only [hknown, Except.ok.injEq] at h
      exact .inl ⟨rfl, h.symm⟩
    | some known =>
      simp only [hknown] at h
      split at h
      · rename_i hsame
        cases h
        exact .inr ⟨congrArg some hsame, rfl⟩
      · cases h

/-- Whether a table is added depends on the tables alone. -/
theorem addTable_of_tables_eq (h : c'.tables = c.tables) (t : Table) :
    c'.addTable t = (c.addTable t).map fun added => { added with indexes := c'.indexes } := by
  obtain ⟨tables, indexes⟩ := c
  obtain ⟨tables', indexes'⟩ := c'
  obtain rfl : tables' = tables := h
  rw [addTable, addTable]
  cases t.validate with
  | error e => rfl
  | ok _ =>
    dsimp only [bind, Except.bind]
    cases tables'.get? t.name with
    | none => rfl
    | some known =>
      dsimp only
      split <;> rfl

/-- An index of a known table is added under its name, or is there already. -/
theorem addIndex_eq_ok {i : Index} {l : Layout} (h : c.addIndex i = .ok (l, c')) :
    (∃ t, c.tables.get? i.table = some t ∧ i.compile t = .ok l) ∧
      (c.indexes.get? i.name = none ∧ c' = { c with indexes := c.indexes.insert i.name i } ∨
        c.indexes.get? i.name = some i ∧ c' = c) := by
  rw [addIndex] at h
  cases ht : c.table i.table with
  | error e => simp [ht, bind, Except.bind] at h
  | ok t =>
    cases hl : i.compile t with
    | error e => simp [ht, hl, bind, Except.bind] at h
    | ok layout =>
      simp only [ht, hl, bind, Except.bind] at h
      cases hknown : c.indexes.get? i.name with
      | none =>
        simp only [hknown, Except.ok.injEq, Prod.mk.injEq] at h
        obtain ⟨rfl, rfl⟩ := h
        exact ⟨⟨t, table_eq_ok.mp ht, hl⟩, .inl ⟨rfl, rfl⟩⟩
      | some known =>
        simp only [hknown] at h
        split at h
        · rename_i hsame
          cases h
          exact ⟨⟨t, table_eq_ok.mp ht, hl⟩, .inr ⟨congrArg some hsame, rfl⟩⟩
        · cases h

/-- Adding a table keeps the definitions. -/
theorem extends_of_addTable {t : Table} (h : c.addTable t = .ok c') : c.Extends c' := by
  obtain ⟨-, ⟨hnew, rfl⟩ | ⟨-, rfl⟩⟩ := addTable_eq_ok h
  · refine ⟨fun {name t'} ht' => SortedMap.get?_insert_eq_some.mpr (.inr ⟨fun he => ?_, ht'⟩), id⟩
    rw [he, hnew] at ht'
    cases ht'
  · exact .refl

/-- Adding an index keeps the definitions. -/
theorem extends_of_addIndex {i : Index} {l : Layout} (h : c.addIndex i = .ok (l, c')) :
    c.Extends c' := by
  obtain ⟨-, ⟨hnew, rfl⟩ | ⟨-, rfl⟩⟩ := addIndex_eq_ok h
  · refine ⟨id, fun {name j} hj => SortedMap.get?_insert_eq_some.mpr (.inr ⟨fun he => ?_, hj⟩)⟩
    rw [he, hnew] at hj
    cases hj
  · exact .refl

/-- Adding an index leaves the tables. -/
theorem tables_of_addIndex {i : Index} {l : Layout} (h : c.addIndex i = .ok (l, c')) :
    c'.tables = c.tables := by
  obtain ⟨-, ⟨-, rfl⟩ | ⟨-, rfl⟩⟩ := addIndex_eq_ok h <;> rfl

/-- A table without a flaw keeps a catalog sound. -/
theorem Sound.addTable (hc : c.Sound) {t : Table} (h : c.addTable t = .ok c') : c'.Sound := by
  have hextends := extends_of_addTable h
  obtain ⟨ht, ⟨-, rfl⟩ | ⟨-, rfl⟩⟩ := addTable_eq_ok h
  · refine ⟨fun {name t'} ht' => ?_, fun {name t'} ht' => ?_, hc.index_name, fun hi => ?_⟩
    · obtain ⟨-, rfl⟩ | ⟨-, ht'⟩ := SortedMap.get?_insert_eq_some.mp ht'
      · exact ht
      · exact hc.table_sound ht'
    · obtain ⟨rfl, rfl⟩ | ⟨-, ht'⟩ := SortedMap.get?_insert_eq_some.mp ht'
      · rfl
      · exact hc.table_name ht'
    · obtain ⟨t', l, ht', hl⟩ := hc.index_compiles hi
      exact ⟨t', l, hextends.table ht', hl⟩
  · exact hc

/-- An index that compiles keeps a catalog sound. -/
theorem Sound.addIndex (hc : c.Sound) {i : Index} {l : Layout} (h : c.addIndex i = .ok (l, c')) :
    c'.Sound := by
  obtain ⟨⟨t, ht, hl⟩, ⟨-, rfl⟩ | ⟨-, rfl⟩⟩ := addIndex_eq_ok h
  · refine ⟨hc.table_sound, hc.table_name, fun {name j} hj => ?_, fun {name j} hj => ?_⟩
    · obtain ⟨rfl, rfl⟩ | ⟨-, hj⟩ := SortedMap.get?_insert_eq_some.mp hj
      · rfl
      · exact hc.index_name hj
    · obtain ⟨-, rfl⟩ | ⟨-, hj⟩ := SortedMap.get?_insert_eq_some.mp hj
      · exact ⟨t, l, ht, hl⟩
      · exact hc.index_compiles hj
  · exact hc

/-- After an index was added the catalog knows it. -/
theorem knows_of_addIndex {i : Index} {l : Layout} (h : c.addIndex i = .ok (l, c')) :
    c'.Knows i := by
  obtain ⟨-, ⟨-, rfl⟩ | ⟨hknown, rfl⟩⟩ := addIndex_eq_ok h
  · exact SortedMap.get?_insert_self ..
  · exact hknown

end Catalog

namespace PreparedQuery

variable {c c' : Catalog} {q : PreparedQuery}

/-- A query that was prepared against a catalog. -/
structure Fits (q : PreparedQuery) (c : Catalog) : Prop where
  /-- Its index is one of its table. -/
  index : ∃ i, c.indexes.get? q.definition.index = some i ∧ i.table = q.table
  /-- Its join reads its table and another. -/
  join : ∀ j, q.join = some j → ∃ first second, c.tables.get? q.table = some first ∧
    c.tables.get? j.table = some second ∧ j.Reads first second

/-- What fits a catalog fits every larger one. -/
theorem Fits.mono (hq : q.Fits c) (h : c.Extends c') : q.Fits c' := by
  refine ⟨?_, fun j hj => ?_⟩
  · obtain ⟨i, hi, htable⟩ := hq.index
    exact ⟨i, h.index hi, htable⟩
  · obtain ⟨first, second, hfirst, hsecond, hreads⟩ := hq.join j hj
    exact ⟨first, second, h.table hfirst, h.table hsecond, hreads⟩

/-- The join of a query is checked with a table of the catalog. -/
theorem compileJoin_eq_ok {name : String} {first : Table} {definition : JoinDefinition} {j : Join} :
    compileJoin c name first definition = .ok j ↔
      ∃ second, c.tables.get? definition.table = some second ∧
        Join.compile first second definition.keyValues
          (definition.fields.map fun f => (f.name, f.newName)) = .ok j := by
  rw [compileJoin]
  cases c.tables.get? definition.table <;> simp

/-- A query that is prepared walks an index of its table, and its join is
checked. Its columns are the fields of the table and the added ones. -/
theorem compile_eq_ok {definition : QueryDefinition} :
    compile c definition = .ok q ↔
      ∃ i first, c.indexes.get? definition.index = some i ∧ c.tables.get? i.table = some first ∧
        Option.Rel (compileJoin c definition.name first · = .ok ·) definition.join q.join ∧
        firstRepeat [] q.columns = none ∧
        q = ⟨definition, first.name, first.fieldNames ++ (q.join.map Join.labels).getD [],
          q.join⟩ := by
  rw [compile]
  constructor
  · intro h
    split at h
    · cases h
    · rename_i i hi
      cases ht : c.table i.table with
      | error e => simp [ht, bind, Except.bind] at h
      | ok first =>
        refine ⟨i, first, hi, Catalog.table_eq_ok.mp ht, ?_⟩
        simp only [ht, bind, Except.bind] at h
        cases hdefinition : definition.join with
        | none =>
          simp only [hdefinition, pure, Except.pure] at h
          split at h
          · cases h
          · cases h
            exact ⟨.none, ‹_›, rfl⟩
        | some joined =>
          simp only [hdefinition] at h
          cases hj : compileJoin c definition.name first joined with
          | error e => simp [hj, Except.map] at h
          | ok j =>
            simp only [hj, Except.map, pure, Except.pure] at h
            split at h
            · cases h
            · cases h
              exact ⟨.some hj, ‹_›, rfl⟩
  · rintro ⟨i, first, hi, hfirst, hjoin, hcolumns, hq⟩
    rw [hq] at hcolumns
    rw [hq, hi]
    dsimp only [bind, Except.bind] at hcolumns ⊢
    rw [Catalog.table_eq_ok.mpr hfirst]
    generalize q.join = join at hjoin hcolumns ⊢
    cases hdefinition : definition.join with
    | none =>
      rw [hdefinition] at hjoin
      cases hjoin
      dsimp only [pure, Except.pure]
      rw [hcolumns]
    | some joined =>
      rw [hdefinition] at hjoin
      cases hjoin with
      | some hj =>
        dsimp only [pure, Except.pure]
        rw [hj]
        dsimp only [Except.map]
        rw [hcolumns]

/-- A prepared query has its definition. -/
theorem definition_of_compile {definition : QueryDefinition} (h : compile c definition = .ok q) :
    q.definition = definition := by
  obtain ⟨i, first, -, -, -, -, heq⟩ := compile_eq_ok.mp h
  rw [heq]

/-- What is prepared against a catalog is prepared alike against a larger one. -/
theorem compile_mono (h : c.Extends c') {definition : QueryDefinition}
    (hq : compile c definition = .ok q) : compile c' definition = .ok q := by
  obtain ⟨i, first, hi, hfirst, hjoin, hcolumns⟩ := compile_eq_ok.mp hq
  refine compile_eq_ok.mpr ⟨i, first, h.index hi, h.table hfirst, ?_, hcolumns⟩
  generalize definition.join = joined, q.join = join at hjoin ⊢
  cases hjoin with
  | none => exact .none
  | some hj =>
    obtain ⟨second, hsecond, hcompiled⟩ := compileJoin_eq_ok.mp hj
    exact .some (compileJoin_eq_ok.mpr ⟨second, h.table hsecond, hcompiled⟩)

/-- A prepared join reads its tables. -/
theorem reads_of_compileJoin (hc : c.Sound) {name : String} {first : Table}
    {definition : JoinDefinition} {j : Join}
    (h : compileJoin c name first definition = .ok j) :
    ∃ second, c.tables.get? j.table = some second ∧ j.Reads first second := by
  obtain ⟨second, hsecond, hcompiled⟩ := compileJoin_eq_ok.mp h
  have hreads := Join.reads_of_compile (hc.table_sound hsecond) hcompiled
  refine ⟨second, ?_, hreads⟩
  rwa [hreads.table_eq, hc.table_name hsecond]

/-- A query that is prepared fits the catalog. -/
theorem fits_of_compile (hc : c.Sound) {definition : QueryDefinition}
    (h : compile c definition = .ok q) : q.Fits c := by
  obtain ⟨i, first, hi, hfirst, hjoin, -, hq⟩ := compile_eq_ok.mp h
  have hname : first.name = i.table := hc.table_name hfirst
  have htable : q.table = i.table := by rw [hq, hname]
  have hindex : q.definition.index = definition.index := by rw [hq]
  refine ⟨⟨i, hindex ▸ hi, htable.symm⟩, fun j hj => ?_⟩
  rw [hj] at hjoin
  generalize definition.join = joined at hjoin
  cases hjoin with
  | some hcompiled =>
    obtain ⟨second, hsecond, hreads⟩ := reads_of_compileJoin hc hcompiled
    exact ⟨first, second, htable ▸ hfirst, hsecond, hreads⟩

end PreparedQuery

namespace Registry

variable {c : Catalog}

/-- A further query is prepared if it is checked and has a new name. -/
theorem prepareFrom_cons_eq_ok {definition : QueryDefinition} {queries : List QueryDefinition}
    {r r' : Registry} : prepareFrom c r (definition :: queries) = .ok r' ↔
      ∃ q, PreparedQuery.compile c definition = .ok q ∧ r.get? definition.name = none ∧
        prepareFrom c (r.insert definition.name q) queries = .ok r' := by
  rw [prepareFrom]
  cases hq : PreparedQuery.compile c definition with
  | error e => simp [bind, Except.bind]
  | ok q => cases hr : r.get? definition.name <;> simp [hr, SortedMap.contains, bind, Except.bind]

/-- What holds of each query that is prepared holds of all that are installed,
if it held of those before. -/
theorem forall_of_prepareFrom {P : String → PreparedQuery → Prop}
    (hcompiled : ∀ {definition q}, PreparedQuery.compile c definition = .ok q →
      P definition.name q)
    {queries : List QueryDefinition} {r r' : Registry}
    (hr : ∀ {name q}, r.get? name = some q → P name q) (h : prepareFrom c r queries = .ok r') :
    ∀ {name q}, r'.get? name = some q → P name q := by
  induction queries generalizing r with
  | nil =>
    cases h
    exact hr
  | cons definition queries ih =>
    obtain ⟨q, hq, -, hrest⟩ := prepareFrom_cons_eq_ok.mp h
    refine ih (fun {name q'} hq' => ?_) hrest
    obtain ⟨rfl, rfl⟩ | ⟨-, hq'⟩ := SortedMap.get?_insert_eq_some.mp hq'
    · exact hcompiled hq
    · exact hr hq'

/-- The queries of a list that are prepared are installed under their names. -/
theorem forall_of_prepare {P : String → PreparedQuery → Prop}
    (hcompiled : ∀ {definition q}, PreparedQuery.compile c definition = .ok q →
      P definition.name q)
    {queries : List QueryDefinition} {r : Registry} (h : prepare c queries = .ok r) :
    ∀ {name q}, r.get? name = some q → P name q :=
  forall_of_prepareFrom hcompiled (by simp) h

theorem find_eq_ok {r : Registry} {name : String} {q : PreparedQuery} :
    r.find name = .ok q ↔ r.get? name = some q := by
  rw [find]
  cases r.get? name <;> simp

end Registry
end Chronicle
