import Chronicle.Proofs.Ranges
import Chronicle.Proofs.StoredHistories

/-!
# Rows with joined values

A row has a value of its type for each field of its table, so a checked join
finds the second identity in it, of the right types, and the selected fields in
the row of that identity. Joining therefore never fails, and what it adds is
told by the history of the second table.
-/

namespace Chronicle

open FactStore

namespace History

variable {h : History} {t : Table} {i : Tuple} {block : UInt64}

/-- A version that is seen comes from a fact of the identity. -/
theorem exists_fact_of_versionAt {v : Version} (hv : h.versionAt i block = some v) :
    ∃ f ∈ h, f.identity = i ∧ f.version = v ∧ v.block ≤ block := by
  have hblock := List.find?_some hv
  obtain ⟨f, hf, rfl⟩ := List.mem_map.mp (List.mem_of_find?_eq_some hv)
  obtain ⟨hf, hidentity⟩ := List.mem_filter.mp hf
  exact ⟨f, hf, by simpa using hidentity, rfl, by simpa using hblock⟩

/-- An identity that has a row is known. -/
theorem knows_of_row {row : Row} (hrow : h.row t block i = some row) : h.Knows i := by
  obtain ⟨v, hv, -⟩ := Option.map_eq_some_iff.mp hrow
  obtain ⟨f, hf, hidentity, -⟩ := exists_fact_of_versionAt hv
  exact ⟨f, hf, hidentity⟩

/-- A row has a value of its type for each field. -/
theorem types_row (ht : t.Sound) (hfits : ∀ f ∈ h, f.Fits t) {row : Row}
    (hrow : h.row t block i = some row) :
    row.values.map Value.type = t.fields.map (·.type) := by
  obtain ⟨v, hv, rfl⟩ := Option.map_eq_some_iff.mp hrow
  obtain ⟨f, hf, rfl, rfl, -⟩ := exists_fact_of_versionAt hv
  obtain ⟨hid, hpayload⟩ := hfits f hf
  refine Table.types_rowValues ht hid ?_
  cases hpresent : f.present with
  | true => exact .inl (by simpa [Fact.version, hpresent] using hpayload hpresent)
  | false => exact .inr (by simp [Fact.version, hpresent])

end History

/-- The fields of some names, without those that the table lacks. -/
def Table.select (t : Table) (names : List String) : List Field := names.filterMap t.field?

namespace Join

/-- The values at some positions of a tuple, without those that it lacks. -/
def picked (values : Tuple) (positions : List Nat) : Tuple := positions.filterMap (values[·]?)

/-- Positions that have types have values of these types. -/
theorem pick_eq {values : Tuple} {types : List ScalarType} (hvalues : values.map Value.type = types)
    {positions : List Nat} {expected : List ScalarType}
    (hpositions : positions.map (types[·]?) = expected.map some) :
    pick values positions = .ok (picked values positions) ∧
      (picked values positions).map Value.type = expected := by
  induction positions generalizing expected with
  | nil =>
    obtain rfl : expected = [] := by simpa using hpositions.symm
    exact ⟨rfl, rfl⟩
  | cons p positions ih =>
    cases expected with
    | nil => simp at hpositions
    | cons type expected =>
      rw [List.map_cons, List.map_cons, List.cons.injEq, ← hvalues, List.getElem?_map,
        Option.map_eq_some_iff] at hpositions
      obtain ⟨⟨v, hv, rfl⟩, hrest⟩ := hpositions
      rw [hvalues] at hrest
      obtain ⟨hpick, htypes⟩ := ih hrest
      rw [pick] at hpick
      constructor
      · rw [pick, List.mapM_cons, hpick, hv]
        simp [picked, hv, bind, Except.bind, pure, Except.pure]
      · simpa [picked, hv] using htypes

/-- A join that reads the rows of two tables. -/
structure Reads (j : Join) (first second : Table) : Prop where
  /-- It belongs to the second table. -/
  table_eq : j.table = second.name
  /-- The key positions have the types of the second identity. -/
  key_types : j.keyPositions.map ((first.fields.map (·.type))[·]?) = second.keyTypes.map some
  /-- The selected positions have the types of the added fields. -/
  field_types : (j.fields.map (·.position)).map ((second.fields.map (·.type))[·]?) =
    (j.fields.map (·.type)).map some

/-- The field of a name is at its position. -/
theorem getElem?_fieldIndex? {t : Table} {name : String} {p : Nat} {f : Field}
    (hp : t.fieldIndex? name = some p) (hf : t.field? name = some f) :
    t.fields[p]? = some f := by
  obtain ⟨hlt, hname, hbefore⟩ := List.findIdx?_eq_some_iff_getElem.mp hp
  obtain ⟨-, q, hq, rfl, hfirst⟩ := List.find?_eq_some_iff_getElem.mp hf
  obtain hlt' | rfl | hgt := Nat.lt_trichotomy p q
  · have hnot := hfirst p hlt'
    rw [hname] at hnot
    cases hnot
  · exact List.getElem?_eq_getElem hlt
  · exact absurd (List.find?_some hf) (hbefore q hgt)

/-- The types of fields are at their positions. -/
theorem map_type_getElem? {fields selected : List Field} {positions : List Nat}
    (h : positions.map (fields[·]?) = selected.map some) :
    positions.map ((fields.map (·.type))[·]?) = (selected.map (·.type)).map some := by
  calc positions.map ((fields.map (·.type))[·]?)
      = (positions.map (fields[·]?)).map (Option.map (·.type)) := by simp
    _ = (selected.map (·.type)).map some := by simp [h]

/-- Checked key fields are at their positions and have the expected types. -/
theorem keyPositions?_select {first second : Table} {names : List String}
    {types : List ScalarType} (hlen : names.length = types.length) {positions : List Nat}
    (h : keyPositions? first second names types = .ok positions) :
    positions.map (first.fields[·]?) = (first.select names).map some ∧
      (first.select names).map (·.type) = types := by
  induction names generalizing types positions with
  | nil =>
    obtain rfl := List.length_eq_zero_iff.mp hlen.symm
    cases h
    exact ⟨rfl, rfl⟩
  | cons name names ih =>
    cases types with
    | nil => simp at hlen
    | cons expected types =>
      rw [keyPositions?] at h
      split at h
      · rename_i p f hp hf
        split at h
        · rename_i htype
          cases hrest : keyPositions? first second names types with
          | error e => simp [hrest, Except.map] at h
          | ok rest =>
            simp only [hrest, Except.map, Except.ok.injEq] at h
            subst h
            obtain ⟨hplaces, htypes⟩ := ih (by simpa using hlen) hrest
            rw [Table.select] at hplaces htypes ⊢
            simp only [List.map_cons, List.filterMap_cons_some hf, hplaces, htypes, htype,
              getElem?_fieldIndex? hp hf, and_self]
        · cases h
      · cases h

/-- Selected fields are at their positions and keep their types. -/
theorem selectFields_select {first second : Table}
    {selected : List (String × Option String)} {fields : List JoinedField}
    (h : selected.mapM (selectField first second) = .ok fields) :
    (fields.map (·.position)).map (second.fields[·]?) =
        (second.select (selected.map Prod.fst)).map some ∧
      fields.map (·.type) = (second.select (selected.map Prod.fst)).map (·.type) := by
  induction selected generalizing fields with
  | nil =>
    cases h
    exact ⟨rfl, rfl⟩
  | cons selection selected ih =>
    rw [List.mapM_cons] at h
    cases hfirst : selectField first second selection with
    | error e => simp [hfirst, bind, Except.bind] at h
    | ok field =>
      cases hrest : selected.mapM (selectField first second) with
      | error e => simp [hfirst, hrest, bind, Except.bind] at h
      | ok rest =>
        simp only [hfirst, hrest, bind, Except.bind, pure, Except.pure, Except.ok.injEq] at h
        subst h
        obtain ⟨hpositions, htypes⟩ := ih hrest
        rw [selectField] at hfirst
        split at hfirst
        · rename_i p f hp hf
          cases hfirst
          rw [Table.select] at hpositions htypes ⊢
          simp only [List.map_cons, List.filterMap_cons_some hf, hpositions, htypes,
            getElem?_fieldIndex? hp hf, and_self]
        · cases hfirst

/-- A checked join has as many key fields as the second identity, and its key
positions and fields are checked. -/
theorem compile_eq_ok {first second : Table} {keyFields : List String}
    {selected : List (String × Option String)} {j : Join}
    (h : compile first second keyFields selected = .ok j) :
    keyFields.length = second.keys.length ∧
      keyPositions? first second keyFields second.keyTypes = .ok j.keyPositions ∧
      selected.mapM (selectField first second) = .ok j.fields ∧ j.table = second.name ∧
      j.keyReadsPayload = keyFields.any fun name => !first.isKey name := by
  rw [compile] at h
  split at h
  · cases h
  · rename_i hlen
    cases hpositions : keyPositions? first second keyFields second.keyTypes with
    | error e => simp [hpositions, bind, Except.bind] at h
    | ok positions =>
      cases hfields : selected.mapM (selectField first second) with
      | error e => simp [hpositions, hfields, bind, Except.bind] at h
      | ok fields =>
        simp only [hpositions, hfields, bind, Except.bind, pure, Except.pure, Except.ok.injEq] at h
        subst h
        exact ⟨not_ne_iff.mp hlen, rfl, rfl, rfl, rfl⟩

/-- A checked join reads the rows of its tables. -/
theorem reads_of_compile {first second : Table} (hsecond : second.Sound)
    {keyFields : List String} {selected : List (String × Option String)} {j : Join}
    (h : compile first second keyFields selected = .ok j) : j.Reads first second := by
  obtain ⟨hlen, hpositions, hfields, htable, -⟩ := compile_eq_ok h
  rw [← Table.length_keyTypes hsecond] at hlen
  obtain ⟨hkeys, hkeyTypes⟩ := keyPositions?_select hlen hpositions
  obtain ⟨hplaces, htypes⟩ := selectFields_select hfields
  refine ⟨htable, ?_, ?_⟩
  · rw [map_type_getElem? hkeys, hkeyTypes]
  · rw [map_type_getElem? hplaces, htypes]

end Join

/-- The values that a join adds to a row, by the history of the second table. -/
def History.joined (second : Table) (h : History) (j : Join) (block : UInt64) (row : Row) :
    Tuple :=
  if !row.present && j.keyReadsPayload then j.defaults
  else match h.row second block (Join.picked row.values j.keyPositions) with
    | none => j.defaults
    | some found => Join.picked found.values (j.fields.map (·.position))

/-- A store whose rows as of a block are those that a history tells, with a value
of its type for each field. -/
structure FactStore.Shows (s : FactStore) (d : Directory) (h : History) (block : UInt64) :
    Prop where
  /-- The row of an identity is that of the history. -/
  resolveRow_eq : ∀ i, s.table.IsIdentity i →
    s.resolveRow d i block = .ok (h.row s.table block i)
  /-- It has a value of its type for each field. -/
  types_row : ∀ i row, h.row s.table block i = some row →
    row.values.map Value.type = s.table.fields.map (·.type)

/-- A store shows the history that is recorded. -/
theorem History.RecordedIn.shows {s : FactStore} {d : Directory} {h : History} (hs : s.Sound)
    (hr : h.RecordedIn s.table (s.facts d)) (block : UInt64) : s.Shows d h block :=
  ⟨fun _ hi => hr.resolveRow_eq hs hi, fun _ _ => History.types_row hs.table hr.fits⟩

/-- A checked join adds what the history tells. -/
theorem Join.Reads.resolve_eq {j : Join} {first : Table} {s : FactStore} {d : Directory}
    {h : History} (hj : j.Reads first s.table) {block : UInt64} (hs : s.Shows d h block) {row : Row}
    (hrow : row.values.map Value.type = first.fields.map (·.type)) :
    j.resolve s d row block = .ok (h.joined s.table j block row) := by
  obtain ⟨hpick, htypes⟩ := Join.pick_eq hrow hj.key_types
  rw [resolve, History.joined]
  split
  · rfl
  · rw [deriveKey, hpick]
    dsimp only [bind, Except.bind]
    rw [hs.resolveRow_eq _ htypes]
    cases hfound : h.row s.table block (picked row.values j.keyPositions) with
    | none => rfl
    | some found => exact (Join.pick_eq (hs.types_row _ _ hfound) hj.field_types).1

/-- The row of an identity as a page shows it, by the stored histories. -/
def RangeSource.seen (source : RangeSource) (d : Directory) (block : UInt64) (i : Tuple) :
    Option Row :=
  ((d.history source.store.table.name).row source.store.table block i).map fun row =>
    match source.join with
    | none => row
    | some join =>
      let h := d.history join.second.table.name
      { row with values := row.values ++ h.joined join.second.table join.join block row }

/-- A source whose store and join are in order on a directory. -/
structure RangeSource.Ready (source : RangeSource) (d : Directory) : Prop where
  /-- The store keeps the stored history. -/
  keeps : ∃ known, source.store.Keeps known d (d.history source.store.table.name)
  /-- The index is registered. -/
  registered : ∃ name, source.store.layouts.get? name = some source.layout
  /-- A join reads the table and its own, which is recorded. -/
  joins : ∀ join, source.join = some join →
    join.join.Reads source.store.table join.second.table ∧ join.second.Sound ∧
      (d.history join.second.table.name).RecordedIn join.second.table (join.second.facts d)

/-- A source that is ready shows what the histories tell. -/
theorem RangeSource.Ready.rowAt_eq {source : RangeSource} {d : Directory} (hs : source.Ready d)
    {i : Tuple} (hi : (d.history source.store.table.name).Knows i) (block : UInt64) :
    source.rowAt d block i = .ok (source.seen d block i) := by
  obtain ⟨known, hkeeps⟩ := hs.keeps
  have hidentity := hkeeps.recorded.isIdentity hi
  rw [rowAt, hkeeps.recorded.resolveRow_eq hkeeps.sound hidentity, seen]
  cases hfound : (d.history source.store.table.name).row source.store.table block i with
  | none => rfl
  | some row =>
    cases hj : source.join with
    | none => rfl
    | some join =>
      obtain ⟨hreads, hsound, hrecorded⟩ := hs.joins join hj
      have htypes := History.types_row hkeeps.sound.table hkeeps.recorded.fits hfound
      dsimp only [bind, Except.bind]
      rw [hreads.resolve_eq (hrecorded.shows hsound block) htypes]
      rfl

end Chronicle
