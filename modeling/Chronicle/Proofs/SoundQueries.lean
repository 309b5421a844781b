import Chronicle.Proofs.AtomicLoads

/-!
# Queries that can be prepared

What a list of query definitions must say to be prepared, told by the names of
the fields alone: the names of the queries differ, indexes and joined tables are
known, the key fields of a join go one by one with the identity of the joined
table, and no column has the label of another. Each step of the check accepts
exactly what its part of this asks for, and refuses everything else as a flaw of
a definition.
-/

namespace Chronicle

/-- The label of the column of a field that is added. -/
def JoinSelection.label (s : JoinSelection) : String := s.newName.getD s.name

/-- Whether a field of one table has the type of a field of another. -/
def Table.Pairs (first second : Table) (name key : String) : Prop :=
  ∃ f ∈ first.fields, ∃ g ∈ second.fields, f.name = name ∧ g.name = key ∧ f.type = g.type

namespace JoinDefinition

/-- The labels of the columns that a join adds. -/
def labels (j : JoinDefinition) : List String := j.fields.map JoinSelection.label

/-- A join that goes from one table to another. -/
structure Connects (j : JoinDefinition) (first second : Table) : Prop where
  /-- Its key fields are as many as the identity fields of the second table, and
  each has the type of the one at its place. -/
  key_types : List.Forall₂ (first.Pairs second) j.keyValues second.keys
  /-- The fields that it adds are fields of the second table. -/
  field_mem : ∀ s ∈ j.fields, s.name ∈ second.fieldNames

/-- A join that a table can have in a catalog. -/
structure Sound (j : JoinDefinition) (c : Catalog) (first : Table) : Prop where
  /-- It goes to a known table. -/
  connects : ∃ second, c.tables.get? j.table = some second ∧ j.Connects first second
  /-- No column has the label of another. -/
  labels_nodup : (first.fieldNames ++ j.labels).Nodup

end JoinDefinition

namespace QueryDefinition

/-- A query that can be prepared against a catalog. -/
structure Sound (q : QueryDefinition) (c : Catalog) : Prop where
  /-- Its index is known. -/
  index : ∃ i, c.indexes.get? q.index = some i
  /-- The table of its index can have its join. -/
  join : ∀ i first j, c.indexes.get? q.index = some i → c.tables.get? i.table = some first →
    q.join = some j → j.Sound c first

/-- The labels of the columns of a query on a table. -/
def labels (q : QueryDefinition) (first : Table) : List String :=
  first.fieldNames ++ (q.join.map JoinDefinition.labels).getD []

end QueryDefinition

/-- Steps all succeed if each of them does. -/
theorem exists_mapM_ok {α β ε : Type} {step : α → Except ε β} {l : List α} :
    (∃ results, l.mapM step = .ok results) ↔ ∀ a ∈ l, ∃ b, step a = .ok b := by
  refine ⟨fun ⟨results, h⟩ => forall_ok_of_mapM_ok h, fun h => ?_⟩
  induction l with
  | nil => exact ⟨[], rfl⟩
  | cons a l ih =>
    obtain ⟨⟨b, hb⟩, hl⟩ := List.forall_mem_cons.mp h
    obtain ⟨results, hresults⟩ := ih hl
    exact ⟨b :: results, by rw [List.mapM_cons, hb, hresults]; rfl⟩

/-- Steps of which not all succeed fail like one of them. -/
theorem exists_of_mapM_error {α β ε : Type} {step : α → Except ε β} {l : List α} {e : ε}
    (h : l.mapM step = .error e) : ∃ a ∈ l, step a = .error e := by
  induction l with
  | nil => cases h
  | cons a l ih =>
    rw [List.mapM_cons] at h
    cases ha : step a with
    | error e' =>
      rw [ha] at h
      cases h
      exact ⟨a, List.mem_cons_self .., ha⟩
    | ok b =>
      cases hl : l.mapM step with
      | error e' =>
        rw [ha, hl] at h
        cases h
        obtain ⟨a', hmem, ha'⟩ := ih hl
        exact ⟨a', List.mem_cons_of_mem _ hmem, ha'⟩
      | ok results =>
        rw [ha, hl] at h
        cases h

/-- Two relations that agree along a third agree on lists along it. -/
theorem forall₂_iff_of_forall₂ {α β γ : Type} {P : α → γ → Prop} {Q : β → γ → Prop}
    {R : α → β → Prop} {as : List α} {bs : List β} {cs : List γ} (hQ : List.Forall₂ Q bs cs)
    (h : ∀ a b c, Q b c → (P a c ↔ R a b)) : List.Forall₂ P as cs ↔ List.Forall₂ R as bs := by
  induction hQ generalizing as with
  | nil => rw [List.forall₂_nil_right_iff, List.forall₂_nil_right_iff]
  | @cons b c bs cs hbc _ ih =>
    cases as with
    | nil => simp
    | cons a as => rw [List.forall₂_cons, List.forall₂_cons, h a b c hbc, ih]

namespace Table

variable {t : Table} {name : String}

/-- A field that a name finds has a position. -/
theorem exists_fieldIndex? {f : Field} (h : t.field? name = some f) :
    ∃ p, t.fieldIndex? name = some p := by
  rw [field?] at h
  refine Option.isSome_iff_exists.mp ?_
  rw [fieldIndex?, List.findIdx?_isSome, List.any_eq_true]
  have hname := List.find?_some h
  exact ⟨f, List.mem_of_find?_eq_some h, hname⟩

/-- A name finds the field that has it. -/
theorem field?_eq_some_iff (ht : t.Sound) {f : Field} :
    t.field? name = some f ↔ f ∈ t.fields ∧ f.name = name := by
  constructor
  · intro h
    rw [field?] at h
    exact ⟨List.mem_of_find?_eq_some h, by simpa using List.find?_some h⟩
  · rintro ⟨hf, rfl⟩
    exact (field?_eq_some ht).mpr hf

/-- The types of an identity go one by one with its names. -/
theorem forall₂_keyTypes (ht : t.Sound) :
    List.Forall₂ (fun key type => ∃ g, t.field? key = some g ∧ g.type = type) t.keys
      t.keyTypes := by
  have heq : List.Forall₂ Eq (t.keys.map fun key => (t.field? key).map (·.type))
      (t.keyTypes.map some) := by
    rw [← keyTypes_eq_map ht, List.forall₂_eq_eq_eq]
  rw [List.forall₂_map_left_iff, List.forall₂_map_right_iff] at heq
  exact heq.imp fun key type h => Option.map_eq_some_iff.mp h

end Table

namespace Join

variable {first second : Table}

/-- Key fields have positions exactly if each has the type that is expected. -/
theorem exists_keyPositions?_iff {names : List String} {types : List ScalarType}
    (hlen : names.length = types.length) :
    (∃ positions, keyPositions? first second names types = .ok positions) ↔
      List.Forall₂ (fun name type => ∃ f, first.field? name = some f ∧ f.type = type) names
        types := by
  induction names generalizing types with
  | nil =>
    obtain rfl := List.length_eq_zero_iff.mp hlen.symm
    simp [keyPositions?]
  | cons name names ih =>
    cases types with
    | nil => simp at hlen
    | cons type types =>
      rw [List.forall₂_cons, ← ih (by simpa using hlen), keyPositions?]
      cases hf : first.field? name with
      | none => cases first.fieldIndex? name <;> simp
      | some f =>
        obtain ⟨p, hp⟩ := Table.exists_fieldIndex? hf
        by_cases htype : f.type = type
        · simp [hp, htype, map_eq_ok]
        · simp [hp, htype]

/-- A field of the second table can be selected, and no other. -/
theorem exists_selectField_iff (hsecond : second.Sound) {selected : String × Option String} :
    (∃ field, selectField first second selected = .ok field) ↔
      selected.1 ∈ second.fieldNames := by
  have hnamed : (∃ f, second.field? selected.1 = some f) ↔ selected.1 ∈ second.fieldNames := by
    simp only [Table.field?_eq_some_iff hsecond, Table.fieldNames, List.mem_map]
  rw [← hnamed, selectField]
  cases hf : second.field? selected.1 with
  | none => cases second.fieldIndex? selected.1 <;> simp
  | some f =>
    obtain ⟨p, hp⟩ := Table.exists_fieldIndex? hf
    simp [hp]

/-- Two fields of one type are what a key field and its place need. -/
theorem exists_fields_iff (hfirst : first.Sound) (hsecond : second.Sound) (name : String)
    {key : String} {type : ScalarType} (hkey : ∃ g, second.field? key = some g ∧ g.type = type) :
    (∃ f, first.field? name = some f ∧ f.type = type) ↔ first.Pairs second name key := by
  obtain ⟨g, hg, rfl⟩ := hkey
  obtain ⟨hmem, hname⟩ := (Table.field?_eq_some_iff hsecond).mp hg
  constructor
  · rintro ⟨f, hf, htype⟩
    obtain ⟨hf, hfname⟩ := (Table.field?_eq_some_iff hfirst).mp hf
    exact ⟨f, hf, g, hmem, hfname, hname, htype⟩
  · rintro ⟨f, hf, g', hmem', rfl, hname', htype⟩
    have hg' : second.field? key = some g' :=
      (Table.field?_eq_some_iff hsecond).mpr ⟨hmem', hname'⟩
    obtain rfl : g' = g := Option.some.inj (hg'.symm.trans hg)
    exact ⟨f, (Table.field?_eq_some_iff hfirst).mpr ⟨hf, rfl⟩, htype⟩

/-- A join passes its check exactly if it goes from the first table to the second. -/
theorem exists_compile_iff (hfirst : first.Sound) (hsecond : second.Sound) {j : JoinDefinition} :
    (∃ join, compile first second j.keyValues (j.fields.map fun f => (f.name, f.newName)) =
      .ok join) ↔ j.Connects first second := by
  have hkeys : List.Forall₂ (fun name type => ∃ f, first.field? name = some f ∧ f.type = type)
      j.keyValues second.keyTypes ↔ List.Forall₂ (first.Pairs second) j.keyValues second.keys :=
    forall₂_iff_of_forall₂ (Table.forall₂_keyTypes hsecond)
      fun name _ _ => exists_fields_iff hfirst hsecond name
  have hselected : (∃ fields, (j.fields.map fun f => (f.name, f.newName)).mapM
      (selectField first second) = .ok fields) ↔ ∀ s ∈ j.fields, s.name ∈ second.fieldNames := by
    simp only [exists_mapM_ok, List.forall_mem_map, exists_selectField_iff hsecond]
  have hlength := Table.length_keyTypes hsecond
  constructor
  · rintro ⟨join, hjoin⟩
    obtain ⟨hlen, hpositions, hfields, -⟩ := compile_eq_ok hjoin
    exact ⟨hkeys.mp ((exists_keyPositions?_iff (hlen.trans hlength.symm)).mp ⟨_, hpositions⟩),
      hselected.mp ⟨_, hfields⟩⟩
  · intro h
    have hlen := h.key_types.length_eq
    obtain ⟨positions, hpositions⟩ :=
      (exists_keyPositions?_iff (hlen.trans hlength.symm)).mpr (hkeys.mpr h.key_types)
    obtain ⟨fields, hfields⟩ := hselected.mpr h.field_mem
    rw [compile, if_neg (not_not.mpr hlen), hpositions, hfields]
    exact ⟨_, rfl⟩

/-- The labels of a checked join are those of its definition. -/
theorem labels_of_compile {j : JoinDefinition} {join : Join}
    (h : compile first second j.keyValues (j.fields.map fun f => (f.name, f.newName)) =
      .ok join) : join.labels = j.labels := by
  obtain ⟨-, -, hfields, -⟩ := compile_eq_ok h
  have hlabel (s : String × Option String) (f : JoinedField)
      (hf : selectField first second s = .ok f) : some (s.2.getD s.1) = some f.label := by
    rw [selectField] at hf
    split at hf
    · cases hf
      rfl
    · cases hf
  have hlabels := Option.some.inj ((mapM_some_of_ok hlabel hfields).symm.trans List.mapM_pure)
  rw [labels, hlabels, List.map_map]
  rfl

/-- A key field that is refused is refused as a flaw. -/
theorem flaw_of_keyPositions? {names : List String} {types : List ScalarType} {e : Error}
    (h : keyPositions? first second names types = .error e) : ∃ flaw : Flaw, e = flaw := by
  induction names generalizing types with
  | nil => cases h
  | cons name names ih =>
    cases types with
    | nil => cases h
    | cons type types =>
      rw [keyPositions?] at h
      split at h
      · split at h
        · cases hrest : keyPositions? first second names types with
          | error e' =>
            rw [hrest] at h
            cases h
            exact ih hrest
          | ok rest =>
            rw [hrest] at h
            cases h
        · cases h
          exact ⟨_, rfl⟩
      · cases h
        exact ⟨_, rfl⟩

/-- A join that is refused is refused as a flaw. -/
theorem flaw_of_compile {keyFields : List String} {selected : List (String × Option String)}
    {e : Error} (h : compile first second keyFields selected = .error e) :
    ∃ flaw : Flaw, e = flaw := by
  rw [compile] at h
  split at h
  · cases h
    exact ⟨_, rfl⟩
  · cases hpositions : keyPositions? first second keyFields second.keyTypes with
    | error e' =>
      rw [hpositions] at h
      cases h
      exact flaw_of_keyPositions? hpositions
    | ok positions =>
      cases hfields : selected.mapM (selectField first second) with
      | error e' =>
        rw [hpositions, hfields] at h
        cases h
        obtain ⟨s, -, hs⟩ := exists_of_mapM_error hfields
        rw [selectField] at hs
        split at hs
        · cases hs
        · cases hs
          exact ⟨_, rfl⟩
      | ok fields =>
        rw [hpositions, hfields] at h
        cases h

end Join

namespace PreparedQuery

variable {c : Catalog}

/-- The join of a query passes its check exactly if it goes from the table of
the query to a known table. -/
theorem exists_compileJoin_iff (hc : c.Sound) (name : String) {first : Table}
    (hfirst : first.Sound) {j : JoinDefinition} :
    (∃ join, compileJoin c name first j = .ok join) ↔
      ∃ second, c.tables.get? j.table = some second ∧ j.Connects first second := by
  constructor
  · rintro ⟨join, hjoin⟩
    obtain ⟨second, hsecond, hcompiled⟩ := compileJoin_eq_ok.mp hjoin
    exact ⟨second, hsecond,
      (Join.exists_compile_iff hfirst (hc.table_sound hsecond)).mp ⟨join, hcompiled⟩⟩
  · rintro ⟨second, hsecond, hconnects⟩
    obtain ⟨join, hcompiled⟩ :=
      (Join.exists_compile_iff hfirst (hc.table_sound hsecond)).mpr hconnects
    exact ⟨join, compileJoin_eq_ok.mpr ⟨second, hsecond, hcompiled⟩⟩

theorem labels_of_compileJoin {name : String} {first : Table} {j : JoinDefinition} {join : Join}
    (h : compileJoin c name first j = .ok join) : join.labels = j.labels := by
  obtain ⟨second, -, hcompiled⟩ := compileJoin_eq_ok.mp h
  exact Join.labels_of_compile hcompiled

/-- The columns of a query that is prepared are those of its definition. -/
theorem columns_eq_labels {q : QueryDefinition} {p : PreparedQuery} (h : compile c q = .ok p) :
    ∃ i first, c.indexes.get? q.index = some i ∧ c.tables.get? i.table = some first ∧
      p.columns = q.labels first := by
  obtain ⟨i, first, hi, hfirst, hjoin, -, hp⟩ := compile_eq_ok.mp h
  refine ⟨i, first, hi, hfirst, ?_⟩
  rw [hp, QueryDefinition.labels]
  generalize q.join = joined, p.join = join at hjoin
  cases hjoin with
  | none => rfl
  | some hcompiled => rw [Option.map_some, Option.map_some, labels_of_compileJoin hcompiled]

/-- A query is prepared exactly if it is sound. -/
theorem exists_compile_iff (hc : c.Sound) {q : QueryDefinition} :
    (∃ p, compile c q = .ok p) ↔ q.Sound c := by
  constructor
  · rintro ⟨p, hp⟩
    obtain ⟨i, first, hi, hfirst, hjoin, hrepeat, heq⟩ := compile_eq_ok.mp hp
    refine ⟨⟨i, hi⟩, fun i' first' j hi' hfirst' hj => ?_⟩
    obtain rfl : i' = i := Option.some.inj (hi'.symm.trans hi)
    obtain rfl : first' = first := Option.some.inj (hfirst'.symm.trans hfirst)
    rw [heq] at hrepeat
    rw [hj] at hjoin
    generalize p.join = join at hjoin hrepeat
    cases hjoin with
    | some hcompiled =>
      have hnodup := (firstRepeat_eq_none.mp hrepeat).1
      rw [Option.map_some, Option.getD_some, labels_of_compileJoin hcompiled] at hnodup
      exact ⟨(exists_compileJoin_iff hc _ (hc.table_sound hfirst)).mp ⟨_, hcompiled⟩, hnodup⟩
  · rintro ⟨⟨i, hi⟩, hjoin⟩
    obtain ⟨first, -, hfirst, -⟩ := hc.index_compiles hi
    have hsound := hc.table_sound hfirst
    cases hj : q.join with
    | none =>
      refine ⟨⟨q, first.name, first.fieldNames, none⟩, compile_eq_ok.mpr
        ⟨i, first, hi, hfirst, hj ▸ .none, ?_, by simp⟩⟩
      exact firstRepeat_eq_none.mpr ⟨hsound.fields_nodup, by simp⟩
    | some j =>
      obtain ⟨hconnects, hnodup⟩ := hjoin i first j hi hfirst hj
      obtain ⟨join, hcompiled⟩ := (exists_compileJoin_iff hc q.name hsound).mpr hconnects
      refine ⟨⟨q, first.name, first.fieldNames ++ join.labels, some join⟩, compile_eq_ok.mpr
        ⟨i, first, hi, hfirst, hj ▸ .some hcompiled, ?_, by simp⟩⟩
      rw [labels_of_compileJoin hcompiled]
      exact firstRepeat_eq_none.mpr ⟨hnodup, by simp⟩

/-- A join of a query that is refused is refused as a flaw. -/
theorem flaw_of_compileJoin {name : String} {first : Table} {j : JoinDefinition} {e : Error}
    (h : compileJoin c name first j = .error e) : ∃ flaw : Flaw, e = flaw := by
  rw [compileJoin] at h
  split at h
  · cases h
    exact ⟨_, rfl⟩
  · exact Join.flaw_of_compile h

/-- A query that is refused is refused as a flaw. The table of its index is
known, so nothing else can fail. -/
theorem flaw_of_compile (hc : c.Sound) {q : QueryDefinition} {e : Error}
    (h : compile c q = .error e) : ∃ flaw : Flaw, e = flaw := by
  rw [compile] at h
  split at h
  · cases h
    exact ⟨_, rfl⟩
  · rename_i i hi
    obtain ⟨first, -, hfirst, -⟩ := hc.index_compiles hi
    simp only [Catalog.table_eq_ok.mpr hfirst, bind, Except.bind] at h
    cases hj : q.join with
    | none =>
      simp only [hj, pure, Except.pure] at h
      split at h
      · cases h
        exact ⟨_, rfl⟩
      · cases h
    | some j =>
      simp only [hj] at h
      cases hcompiled : compileJoin c q.name first j with
      | error e' =>
        simp only [hcompiled, Except.map] at h
        cases h
        exact flaw_of_compileJoin hcompiled
      | ok join =>
        simp only [hcompiled, Except.map, pure, Except.pure] at h
        split at h
        · cases h
          exact ⟨_, rfl⟩
        · cases h

end PreparedQuery

namespace Registry

variable {c : Catalog}

/-- Further queries are prepared exactly if each is sound and has a name of its own. -/
theorem exists_prepareFrom_iff (hc : c.Sound) (queries : List QueryDefinition) (r : Registry) :
    (∃ r', prepareFrom c r queries = .ok r') ↔
      (queries.map QueryDefinition.name).Nodup ∧
        ∀ q ∈ queries, r.get? q.name = none ∧ q.Sound c := by
  constructor
  · rintro ⟨r', h⟩
    obtain ⟨hnodup, hprepared, -⟩ := added_of_prepareFrom h
    refine ⟨hnodup, fun q hq => ?_⟩
    obtain ⟨hnew, hcompiled⟩ := hprepared q hq
    exact ⟨hnew, (PreparedQuery.exists_compile_iff hc).mp hcompiled⟩
  · rintro ⟨hnodup, hall⟩
    induction queries generalizing r with
    | nil => exact ⟨r, rfl⟩
    | cons q queries ih =>
      obtain ⟨⟨hnew, hsound⟩, hothers⟩ := List.forall_mem_cons.mp hall
      rw [List.map_cons, List.nodup_cons] at hnodup
      obtain ⟨p, hp⟩ := (PreparedQuery.exists_compile_iff hc).mpr hsound
      have hrest : ∀ other ∈ queries,
          (r.insert q.name p).get? other.name = none ∧ other.Sound c := fun other hother =>
        have hne : other.name ≠ q.name := fun he => hnodup.1 (he ▸ List.mem_map_of_mem hother)
        ⟨SortedMap.get?_insert_eq_none.mpr ⟨hne, (hothers other hother).1⟩,
          (hothers other hother).2⟩
      obtain ⟨r', hr'⟩ := ih _ hnodup.2 hrest
      exact ⟨r', prepareFrom_cons_eq_ok.mpr ⟨p, hp, hnew, hr'⟩⟩

/-- Queries that are refused are refused as a flaw. -/
theorem flaw_of_prepareFrom (hc : c.Sound) {queries : List QueryDefinition} {r : Registry}
    {e : Error} (h : prepareFrom c r queries = .error e) : ∃ flaw : Flaw, e = flaw := by
  induction queries generalizing r with
  | nil => cases h
  | cons q queries ih =>
    rw [prepareFrom] at h
    cases hp : PreparedQuery.compile c q with
    | error e' =>
      rw [hp] at h
      cases h
      exact PreparedQuery.flaw_of_compile hc hp
    | ok p =>
      rw [hp] at h
      dsimp only [bind, Except.bind] at h
      split at h
      · cases h
        exact ⟨_, rfl⟩
      · exact ih h

/-- Whether queries can be prepared together. -/
def SoundQueries (c : Catalog) (queries : List QueryDefinition) : Prop :=
  (queries.map QueryDefinition.name).Nodup ∧ ∀ q ∈ queries, q.Sound c

/-- Against a catalog that any calls have built, a list of queries is prepared
exactly if it is sound. What is prepared has the names of the list and no
others, and under each the query of that name with its columns. A list that is
not sound is refused as a flaw. -/
theorem prepare_accepts_sound (calls : List CatalogCall) (queries : List QueryDefinition) :
    let c := Catalog.empty.run calls
    match prepare c queries with
    | .ok r => SoundQueries c queries ∧
        (∀ name, r.contains name = true ↔ name ∈ queries.map QueryDefinition.name) ∧
        ∀ q ∈ queries, ∃ i first p, c.indexes.get? q.index = some i ∧
          c.tables.get? i.table = some first ∧ r.get? q.name = some p ∧ p.definition = q ∧
          p.columns = q.labels first
    | .error e => ¬SoundQueries c queries ∧ ∃ flaw, e = .flaw flaw := by
  intro c
  have hc : c.Sound := Catalog.sound_empty.run calls
  have hiff := exists_prepareFrom_iff hc queries .empty
  simp only [SortedMap.get?_empty, true_and] at hiff
  cases hprepare : prepare c queries with
  | error e =>
    refine ⟨fun hsound => ?_, flaw_of_prepareFrom hc hprepare⟩
    obtain ⟨r, hr⟩ := hiff.mpr hsound
    rw [prepare, hr] at hprepare
    cases hprepare
  | ok r =>
    obtain ⟨hnodup, hcompiles, -, hget⟩ := holds_of_prepare hprepare
    refine ⟨hiff.mp ⟨r, hprepare⟩, fun name => ?_, fun q hq => ?_⟩
    · rw [SortedMap.contains, Option.isSome_iff_exists, List.mem_map]
      constructor
      · rintro ⟨p, hp⟩
        obtain ⟨q, hq, hname, -⟩ := (hget name p).mp hp
        exact ⟨q, hq, hname⟩
      · rintro ⟨q, hq, hname⟩
        obtain ⟨p, hp⟩ := hcompiles q hq
        exact ⟨p, (hget name p).mpr ⟨q, hq, hname, hp⟩⟩
    · obtain ⟨p, hp⟩ := hcompiles q hq
      obtain ⟨i, first, hi, hfirst, hcolumns⟩ := PreparedQuery.columns_eq_labels hp
      exact ⟨i, first, p, hi, hfirst, (hget _ p).mpr ⟨q, hq, rfl, hp⟩,
        PreparedQuery.definition_of_compile hp, hcolumns⟩

/-- Orders are prepared with the price of their item under a label of its own.
Under the label of a field of the order they are refused. -/
theorem sample_prepare_accepts_sound :
    let order : Table := ⟨"order", [⟨"id", .string⟩, ⟨"item", .string⟩, ⟨"price", .uint64⟩],
      ["id"]⟩
    let item : Table := ⟨"item", [⟨"name", .string⟩, ⟨"price", .uint64⟩], ["name"]⟩
    let calls : List CatalogCall := [.table order, .table item,
      .index ⟨"order_by_id", "order", [.asc "id"]⟩]
    let orders (label : Option String) : QueryDefinition :=
      ⟨"orders", "order_by_id", true, 10, some ⟨"item", ["item"], [⟨"price", label⟩]⟩⟩
    let c := Catalog.empty.run calls
    (∃ r p, prepare c [orders (some "cost")] = .ok r ∧ r.contains "orders" = true ∧
      r.get? "orders" = some p ∧ p.columns = ["id", "item", "price", "cost"]) ∧
    ∃ flaw : Flaw, prepare c [orders none] = .error flaw := by
  intro order item calls orders c
  have haccepted := prepare_accepts_sound calls [orders (some "cost")]
  have hrefused := prepare_accepts_sound calls [orders none]
  have hindex : c.indexes.get? "order_by_id" = some ⟨"order_by_id", "order", [.asc "id"]⟩ := by
    decide +kernel
  have htable : c.tables.get? "order" = some order := by decide +kernel
  have hsome : (prepare c [orders (some "cost")]).toOption.isSome = true := by decide +kernel
  have hnone : (prepare c [orders none]).toOption.isNone = true := by decide +kernel
  constructor
  · cases hprepare : prepare c [orders (some "cost")] with
    | error e =>
      rw [hprepare] at hsome
      cases hsome
    | ok r =>
      simp only [show Catalog.empty.run calls = c from rfl, hprepare] at haccepted
      obtain ⟨-, hnames, hcolumns⟩ := haccepted
      obtain ⟨i, first, p, hi, hfirst, hp, -, hlabels⟩ := hcolumns _ (List.mem_singleton_self _)
      obtain rfl := Option.some.inj (hi.symm.trans hindex)
      obtain rfl := Option.some.inj (hfirst.symm.trans htable)
      exact ⟨r, p, rfl, (hnames "orders").mpr (by decide), hp, hlabels.trans (by decide)⟩
  · cases hprepare : prepare c [orders none] with
    | error e =>
      simp only [show Catalog.empty.run calls = c from rfl, hprepare] at hrefused
      obtain ⟨flaw, rfl⟩ := hrefused.2
      exact ⟨flaw, rfl⟩
    | ok r =>
      rw [hprepare] at hnone
      cases hnone

end Registry
end Chronicle
