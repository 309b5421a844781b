import Chronicle.Proofs.RedefinedTables

/-!
# Pages with joined values

A join takes its values by name. The fields that form the second identity are
read off the row, an added field of the second identity is taken from there, and
any other from the newest version of it so far, or it has its default. Adding
values is all that a join does to a page: with it and without it a page has the
same rows up to the added values, the same token, and leaves out the same
identities.
-/

namespace Chronicle

open FactStore

/-- The value that a row of a table has under the name of a field. -/
def Table.valueAt? (t : Table) (values : Tuple) (name : String) : Option Value :=
  (t.fieldNames.zip values).lookup name

/-- What a version of an identity shows in a field. A field of the identity is
taken from the identity, and any other from the payload. A tombstone shows the
default there. -/
def Version.shows (v : Version) (t : Table) (identity : Tuple) (f : Field) : Value :=
  if f.name ∈ t.keys then ((t.keys.zip identity).lookup f.name).getD f.type.default
  else if v.present then
    (((t.payloadFields.map (·.name)).zip v.payload).lookup f.name).getD f.type.default
  else f.type.default

/-- The values that are to be added to a row, by the history of the second
table. A tombstone has no payload to read the second identity from, so all
fields have their defaults if the identity needs one. They also have their
defaults if the identity has no version so far. -/
def History.added (h : History) (first second : Table) (keyFields : List String)
    (fields : List Field) (block : UInt64) (row : Row) : Tuple :=
  if row.present = false ∧ ∃ name ∈ keyFields, name ∉ first.keys then
    fields.map (·.type.default)
  else
    let identity := keyFields.filterMap (first.valueAt? row.values)
    match h.versionAt identity block with
    | none => fields.map (·.type.default)
    | some v => fields.map (v.shows second identity)

namespace Table

variable {t : Table}

/-- The value under a name is that at the position of the field. -/
theorem valueAt?_eq (values : Tuple) (name : String) :
    t.valueAt? values name = (t.fieldIndex? name).bind (values[·]?) := by
  rw [valueAt?, lookup_zip, fieldIndex?, fieldNames, List.findIdx?_map]
  rfl

/-- Names that have fields select one field each. -/
theorem map_name_select {names : List String} (h : ∀ name ∈ names, (t.field? name).isSome = true) :
    (t.select names).map (·.name) = names := by
  rw [select, List.map_filterMap]
  calc names.filterMap (fun name => (t.field? name).map (·.name))
      = names.filterMap some := by
        refine List.filterMap_congr fun name hname => ?_
        obtain ⟨f, hf⟩ := Option.isSome_iff_exists.mp (h name hname)
        have hsame := List.find?_some (p := fun f : Field => f.name == name) hf
        rw [hf, Option.map_some, eq_of_beq hsame]
    _ = names := List.filterMap_some

/-- The row of a version has what the version shows, field by field. -/
theorem rowValues_eq_shows {identity : Tuple} (hid : t.IsIdentity identity) (ht : t.Sound)
    {v : Version} (hv : v.present = false → v.payload = []) :
    t.rowValues identity v.payload = t.fields.map (v.shows t identity) := by
  refine List.map_congr_left fun f _ => ?_
  rw [record, List.lookup_append, Version.shows]
  by_cases hkey : f.name ∈ t.keys
  · have hlength := congrArg List.length hid
    rw [List.length_map, length_keyTypes ht] at hlength
    obtain ⟨p, hp⟩ := Option.isSome_iff_exists.mp (isKey_iff.mpr hkey)
    have hlt : p < identity.length := by
      have hbound := (List.findIdx?_eq_some_iff_getElem.mp hp).1
      omega
    have hfound : (t.keys.zip identity).lookup f.name = some identity[p] := by
      have hindex : t.keys.findIdx? (· == f.name) = some p := hp
      rw [lookup_zip, hindex, Option.bind_some, List.getElem?_eq_getElem hlt]
    rw [if_pos hkey, hfound]
    rfl
  · rw [if_neg hkey, lookup_zip_eq_none hkey, Option.none_or]
    cases hpresent : v.present with
    | true => rfl
    | false =>
      rw [hv hpresent, List.zip_nil_right]
      rfl

end Table

namespace Join

variable {first second : Table} {keyFields : List String}
  {selected : List (String × Option String)} {j : Join}

/-- Checked key positions are those of the key names. -/
theorem keyPositions?_names {names : List String} {types : List ScalarType}
    (hlen : names.length = types.length) {positions : List Nat}
    (h : keyPositions? first second names types = .ok positions) :
    names.map first.fieldIndex? = positions.map some := by
  induction names generalizing types positions with
  | nil =>
    obtain rfl := List.length_eq_zero_iff.mp hlen.symm
    cases h
    rfl
  | cons name names ih =>
    cases types with
    | nil => simp at hlen
    | cons expected types =>
      rw [keyPositions?] at h
      split at h
      · rename_i p f hp hf
        split at h
        · cases hrest : keyPositions? first second names types with
          | error e => simp [hrest, Except.map] at h
          | ok rest =>
            simp only [hrest, Except.map, Except.ok.injEq] at h
            subst h
            rw [List.map_cons, List.map_cons, hp, ih (by simpa using hlen) hrest]
        · cases h
      · cases h

/-- A selected name has a field. -/
theorem field?_of_selectFields {fields : List JoinedField}
    (h : selected.mapM (selectField first second) = .ok fields) :
    ∀ name ∈ selected.map Prod.fst, (second.field? name).isSome = true := by
  intro name hname
  obtain ⟨selection, hmem, rfl⟩ := List.mem_map.mp hname
  have hresult := List.mem_map_of_mem (f := selectField first second) hmem
  rw [map_of_mapM_ok h] at hresult
  obtain ⟨field, -, hfield⟩ := List.mem_map.mp hresult
  rw [selectField] at hfield
  split at hfield
  · rename_i p f hp hf
    rw [hf]
    rfl
  · cases hfield

/-- The second identity is read off a row by the names of the key fields. -/
theorem picked_keyPositions (hsecond : second.Sound)
    (h : compile first second keyFields selected = .ok j) (values : Tuple) :
    picked values j.keyPositions = keyFields.filterMap (first.valueAt? values) := by
  obtain ⟨hlen, hpositions, -⟩ := compile_eq_ok h
  rw [← Table.length_keyTypes hsecond] at hlen
  calc picked values j.keyPositions
      = (j.keyPositions.map some).filterMap (·.bind (values[·]?)) := by
        rw [picked, List.filterMap_map]
        rfl
    _ = keyFields.filterMap (first.valueAt? values) := by
        rw [← keyPositions?_names hlen hpositions, List.filterMap_map]
        exact List.filterMap_congr fun name _ => (Table.valueAt?_eq values name).symm

/-- Whether the second identity needs a payload is told by the names of the key
fields. -/
theorem reads_payload_iff (h : compile first second keyFields selected = .ok j) {present : Bool} :
    (!present && j.keyReadsPayload) = true ↔
      present = false ∧ ∃ name ∈ keyFields, name ∉ first.keys := by
  obtain ⟨-, -, -, -, hreads⟩ := compile_eq_ok h
  simp [hreads, ← Table.isKey_iff]

/-- What a checked join adds is told by names. -/
theorem joined_eq_added (hsecond : second.Sound)
    (h : compile first second keyFields selected = .ok j) (history : History) {row : Row}
    (hrow : row.values.map Value.type = first.fields.map (·.type)) (block : UInt64) :
    history.joined second j block row =
      history.added first second keyFields (second.select (selected.map Prod.fst)) block row := by
  obtain ⟨-, -, hfields, -⟩ := compile_eq_ok h
  obtain ⟨hplaces, htypes⟩ := selectFields_select hfields
  have hdefaults : j.defaults =
      (second.select (selected.map Prod.fst)).map (·.type.default) := by
    have hmapped := congrArg (List.map ScalarType.default) htypes
    rwa [List.map_map, List.map_map] at hmapped
  have hidentity := (pick_eq hrow (reads_of_compile hsecond h).key_types).2
  rw [History.joined, History.added]
  by_cases hneeds : row.present = false ∧ ∃ name ∈ keyFields, name ∉ first.keys
  · rw [if_pos ((reads_payload_iff h).mpr hneeds), if_pos hneeds, hdefaults]
  · rw [if_neg (mt (reads_payload_iff h).mp hneeds), if_neg hneeds]
    dsimp only
    rw [← picked_keyPositions hsecond h, History.row]
    cases hv : history.versionAt (picked row.values j.keyPositions) block with
    | none => exact hdefaults
    | some v =>
      dsimp only [Option.map]
      rw [Table.rowValues_eq_shows hidentity hsecond (History.payload_of_versionAt hv),
        picked_map hplaces]

end Join

namespace FactStore

variable {s : FactStore} {d : Directory} {facts : List FiledFact}

/-- The history of the filed facts tells the rows of a table. -/
theorem Recalls.row_eq (h : s.Recalls d facts) (block : UInt64) (i : Tuple) :
    (History.ofFiled facts s.table.name).row s.table block i =
      (FiledFact.newest? facts s.table.name i block).map (·.row s.table) := by
  rw [History.row, FiledFact.versionAt_ofFiled, Option.map_map]
  refine Option.map_congr fun y hy => ?_
  obtain ⟨hmem, hname, rfl, -⟩ := FiledFact.of_newest? hy
  rw [FiledFact.row, ← (h.readable y hmem hname).rowValues_eq]
  rfl

/-- A store that recalls the filed facts shows their history. -/
theorem Recalls.shows (h : s.Recalls d facts) (block : UInt64) :
    s.Shows d (.ofFiled facts s.table.name) block := by
  refine ⟨fun i hi => ?_, fun i row hrow => ?_⟩
  · rw [h.resolveRow_eq hi, h.row_eq]
  · rw [h.row_eq] at hrow
    obtain ⟨y, hnewest, rfl⟩ := Option.map_eq_some_iff.mp hrow
    obtain ⟨hy, hname, -, -⟩ := FiledFact.of_newest? hnewest
    exact (h.readable y hy hname).types_eq h.sound.table

/-- A row that a store shows is typed. -/
theorem Shows.types_eq {h : History} {block : UInt64} (hs : s.Shows d h block) {i : Tuple}
    {row : Row} (hrow : s.resolveRow d i block = .ok (some row)) :
    row.values.map Value.type = s.table.fields.map (·.type) := by
  obtain ⟨v, hversion, -⟩ := versionAt_of_resolveRow hrow
  have hi := History.isIdentity_of_versionAt hversion
  rw [hs.resolveRow_eq i hi] at hrow
  exact hs.types_row i row (Except.ok.inj hrow)

end FactStore

/-- A row with added values. -/
def Row.extended (row : Row) (added : Row → Tuple) : Row :=
  { row with values := row.values ++ added row }

/-- A page with added values. -/
def Page.extended (p : Page) (added : Row → Tuple) : Page :=
  { p with rows := p.rows.map (·.extended added) }

/-- A source with a join. -/
def RangeSource.joinedTo (source : RangeSource) (join : JoinSource) : RangeSource :=
  { source with join := some join }

namespace PageProgress

variable {source : RangeSource} {join : JoinSource} {d : Directory} {block : UInt64} {limit : Nat}
  {added : Row → Tuple} {p : PageProgress}

/-- A page in progress with added values. -/
def extended (p : PageProgress) (added : Row → Tuple) : PageProgress :=
  { p with rows := p.rows.map (·.extended added) }

/-- Without a join no row waits for values. -/
theorem stage_step (hplain : source.join = none) (hp : ∀ row join, p.stage ≠ .joining row join)
    {next : PageProgress} (h : step source block limit d p = .ok next) (row : Row)
    (join : JoinSource) : next.stage ≠ .joining row join := by
  obtain ⟨scanner, rows, skipped, stage⟩ := p
  cases stage with
  | joining row join => exact absurd rfl (hp row join)
  | finished more =>
    cases h
    simp
  | seeking =>
    dsimp only [step] at h
    split at h <;> cases h <;> simp
  | found i =>
    dsimp only [step] at h
    split at h
    · cases hrow : source.store.resolveRow d i block with
      | error e => simp [hrow, Except.map] at h
      | ok seen =>
        simp only [hrow, Except.map, Except.ok.injEq] at h
        subst h
        cases seen <;> simp [showRow, hplain, skip, add]
    · cases hseen : source.store.resolve d i block with
      | error e => simp [hseen, Except.bind] at h
      | ok seen =>
        simp only [hseen, Except.bind, passOver] at h
        split at h
        · cases h
          simp [skip]
        · cases hbound : source.layout.boundOf i with
          | error e => simp [hbound, Except.map] at h
          | ok bound =>
            simp only [hbound, Except.map, Except.ok.injEq] at h
            subst h
            simp

/-- A step that shows no row is the same with a join. -/
theorem step_extended (hp : ∀ row join, p.stage ≠ .joining row join)
    (hshows : ∀ i row, p.stage = .found i → p.rows.length < limit →
      source.store.resolveRow d i block ≠ .ok (some row)) :
    step (source.joinedTo join) block limit d (p.extended added) =
      (step source block limit d p).map (·.extended added) := by
  obtain ⟨scanner, rows, skipped, stage⟩ := p
  cases stage with
  | joining row join => exact absurd rfl (hp row join)
  | finished more => rfl
  | seeking =>
    dsimp only [step, extended, RangeSource.joinedTo]
    split <;> rfl
  | found i =>
    dsimp only [step, extended, RangeSource.joinedTo]
    rw [List.length_map]
    split
    · rename_i hroom
      cases hrow : source.store.resolveRow d i block with
      | error e => rfl
      | ok seen =>
        cases seen with
        | none => rfl
        | some row => exact absurd hrow (hshows i row rfl hroom)
    · cases source.store.resolve d i block with
      | error e => rfl
      | ok seen =>
        cases seen with
        | absent => rfl
        | tombstone _ | live _ =>
          dsimp only [Except.bind, passOver]
          cases source.layout.boundOf i <;> rfl

/-- A page with a join goes on like the page without it. A row that is found takes
one step without a join, and two steps with it. -/
theorem run_extended_step (hplain : source.join = none)
    (hadds : ∀ i row, source.store.resolveRow d i block = .ok (some row) →
      join.join.resolve join.second d row block = .ok (added row))
    (hp : ∀ row join, p.stage ≠ .joining row join) (hgoes : ∀ more, p.stage ≠ .finished more) :
    run (source.joinedTo join) block limit d (p.extended added) =
      (step source block limit d p).bind fun next =>
        run (source.joinedTo join) block limit d (next.extended added) := by
  by_cases hfound : ∃ i row, p.stage = .found i ∧ p.rows.length < limit ∧
      source.store.resolveRow d i block = .ok (some row)
  · obtain ⟨i, row, hstage, hroom, hrow⟩ := hfound
    have hplainStep : step source block limit d p = .ok (p.add row) := by
      simp only [step, hstage, if_pos hroom, hrow, Except.map, showRow, hplain]
    have hfirst : step (source.joinedTo join) block limit d (p.extended added) =
        .ok { p.extended added with stage := .joining row join } := by
      simp [step, extended, hstage, hroom, RangeSource.joinedTo, hrow, Except.map, showRow]
    have hsecond : step (source.joinedTo join) block limit d
        { p.extended added with stage := .joining row join } =
          .ok ((p.add row).extended added) := by
      simp [step, extended, hadds i row hrow, Except.map, add, Row.extended]
    rw [run_step (by simp [extended, hstage]) hfirst, run_step (by simp) hsecond, hplainStep]
    rfl
  · -- Every other step is the same with the join and without it.
    have hshows : ∀ i row, p.stage = .found i → p.rows.length < limit →
        source.store.resolveRow d i block ≠ .ok (some row) := fun i row hstage hroom hrow =>
      hfound ⟨i, row, hstage, hroom, hrow⟩
    rw [run_eq_bind_step (p := p.extended added) hgoes, step_extended hp hshows]
    cases step source block limit d p <;> rfl

/-- A run with a join shows the same rows with the added values. -/
theorem run_extended (hplain : source.join = none)
    (hadds : ∀ i row, source.store.resolveRow d i block = .ok (some row) →
      join.join.resolve join.second d row block = .ok (added row))
    (hp : ∀ row join, p.stage ≠ .joining row join) :
    run (source.joinedTo join) block limit d (p.extended added) =
      (run source block limit d p).map (·.extended added) := by
  -- Over the run without the join, which never waits for values.
  fun_induction run source block limit d p with
  | case1 p more hdone => exact run_finished hdone
  | case2 p hstage e hstep | case4 p i hstage e hstep =>
    rw [run_extended_step hplain hadds hp (by simp [hstage]), hstep]
    rfl
  | case3 p hstage next hstep ih | case5 p i hstage next hstep ih =>
    rw [run_extended_step hplain hadds hp (by simp [hstage]), hstep]
    exact ih (stage_step hplain hp hstep)
  | case6 p row join hstage e hstep | case7 p row join hstage next hstep ih =>
    exact absurd hstage (hp row join)

end PageProgress

namespace RangeSource

variable {source : RangeSource} {join : JoinSource} {d : Directory} {block : UInt64}
  {added : Row → Tuple}

/-- A page with a join is the page without it, with the added values. -/
theorem page_joinedTo (hplain : source.join = none)
    (hadds : ∀ i row, source.store.resolveRow d i block = .ok (some row) →
      join.join.resolve join.second d row block = .ok (added row))
    (first last : Tuple) (limit : Nat) :
    (source.joinedTo join).page d first last block limit =
      (source.page d first last block limit).map (·.extended added) := by
  have hstart : (source.joinedTo join).startPage first last limit =
      source.startPage first last limit := rfl
  rw [page_eq_run, page_eq_run, hstart]
  cases hp : source.startPage first last limit with
  | error e => rfl
  | ok p =>
    have hrows : p.extended added = p := by
      rw [PageProgress.extended, rows_startPage hp, List.map_nil, ← rows_startPage hp]
    have hrun : PageProgress.run (source.joinedTo join) block limit d (p.extended added) =
        (PageProgress.run source block limit d p).map (·.extended added) :=
      PageProgress.run_extended hplain hadds (stage_startPage hp)
    rwa [hrows] at hrun

end RangeSource

namespace Archive

/-- A join that is accepted adds to each row of the first table what the history
of the second tells, in the order of the selected fields and with their types.
A page with the join is the page without it, with these values added to its
rows. The sessions before may have done anything, if the facts of the second
table were filed under definitions that agree with the present one. -/
theorem join_adds_history {events : List ArchiveEvent} {b : String} {second : FactStore}
    (hsecond : (new.run events).database.store b = .ok second)
    (hagrees : (new.run events).AgreesOn second.table) {first : Table} {keyFields : List String}
    {selected : List (String × Option String)} {j : Join}
    (hj : Join.compile first second.table keyFields selected = .ok j) :
    let x := new.run events
    let d := x.database.directory
    let fields := second.table.select (selected.map Prod.fst)
    let added := (History.ofFiled x.facts b).added first second.table keyFields fields
    fields.map (·.name) = selected.map Prod.fst ∧
      (∀ row : Row, row.values.map Value.type = first.fields.map (·.type) → ∀ block,
        j.resolve second d row block = .ok (added block row) ∧
          (added block row).map Value.type = fields.map (·.type)) ∧
      ∀ a store, x.database.store a = .ok store → store.table = first → x.AgreesOn first →
        ∀ layout lower upper block limit,
          (RangeSource.mk store layout (some ⟨j, second⟩)).page d lower upper block limit =
            ((RangeSource.mk store layout none).page d lower upper block limit).map
              (·.extended (added block)) := by
  intro x d fields added
  have htraced : x.Traced := Traced.new.run events
  have hb := Database.store_eq_ok.mp hsecond
  have hname := htraced.opened.table_name hb
  have hsound := (htraced.opened.sound hb).table
  have hshows := fun block => hname ▸ (htraced.recalls hb hagrees).shows block
  have hreads := Join.reads_of_compile hsound hj
  obtain ⟨-, -, hfields, -⟩ := Join.compile_eq_ok hj
  have hresolve : ∀ row : Row, row.values.map Value.type = first.fields.map (·.type) → ∀ block,
      j.resolve second d row block = .ok (added block row) ∧
        (added block row).map Value.type = fields.map (·.type) := by
    intro row hrow block
    have hadded : History.joined second.table (.ofFiled x.facts b) j block row =
        added block row := Join.joined_eq_added hsound hj _ hrow block
    constructor
    · rw [hreads.resolve_eq (hshows block) hrow, hadded]
    · rw [← hadded, History.types_joined hreads (hshows block).types_row,
        (Join.selectFields_select hfields).2]
  refine ⟨Table.map_name_select (Join.field?_of_selectFields hfields), hresolve, ?_⟩
  rintro a store ha rfl hfirst layout lower upper block limit
  have hrows := (htraced.recalls (Database.store_eq_ok.mp ha) hfirst).shows block
  have hplain : (RangeSource.mk store layout none).join = none := rfl
  exact RangeSource.page_joinedTo hplain
    (fun i row hrow => (hresolve row (hrows.types_eq hrow) block).1) lower upper limit

/-- The second identity is read from the payload of a token. It has one version
from an earlier session and one from the present one, which is a tombstone. -/
theorem sample_join_adds_history :
    let token : Table := ⟨"token", [⟨"id", .uint64⟩, ⟨"holder", .string⟩], ["id"]⟩
    let holder : Table := ⟨"holder", [⟨"level", .int64⟩, ⟨"name", .string⟩], ["name"]⟩
    let define : List ArchiveEvent := [.call (.registerTable token), .call (.registerTable holder),
      .call (.registerIndex ⟨"by_id", "token", [.asc "id"]⟩)]
    let events : List ArchiveEvent := define ++
      [.call (.append "holder" (.live [.string "a"] 2 [.int64 5])), .reopen] ++ define ++
      [.call (.append "holder" (.tombstone [.string "a"] 4)),
        .call (.append "token" (.live [.uint64 1] 3 [.string "a"]))]
    let d := (new.run events).database.directory
    let layout : Layout := ⟨"by_id", "token", [⟨"id", 0, .uint64, none, .asc⟩]⟩
    ∃ first second j, (new.run events).database.store "token" = .ok first ∧
      (new.run events).database.store "holder" = .ok second ∧
      Join.compile token second.table ["holder"] [("name", some "known"), ("level", none)] = .ok j ∧
      j.resolve second d ⟨3, true, [.uint64 1, .string "a"]⟩ 3 = .ok [.string "a", .int64 5] ∧
      j.resolve second d ⟨3, true, [.uint64 1, .string "a"]⟩ 4 = .ok [.string "a", .int64 0] ∧
      j.resolve second d ⟨3, true, [.uint64 1, .string "b"]⟩ 3 = .ok [.string "", .int64 0] ∧
      j.resolve second d ⟨3, false, [.uint64 1, .string "a"]⟩ 3 = .ok [.string "", .int64 0] ∧
      (RangeSource.mk first layout (some ⟨j, second⟩)).page d [.uint64 0] [.uint64 9] 3 10 =
        .ok ⟨[⟨3, true, [.uint64 1, .string "a", .string "a", .int64 5]⟩], none, 0⟩ := by
  intro token holder define events d layout
  have hholder : ((new.run events).database.store "holder").toOption.map FactStore.table =
      some holder := by
    decide +kernel
  have htoken : ((new.run events).database.store "token").toOption.map (fun first =>
      (first.table, ((RangeSource.mk first layout none).page d [.uint64 0] [.uint64 9] 3
        10).toOption)) = some (token, some ⟨[⟨3, true, [.uint64 1, .string "a"]⟩], none, 0⟩) := by
    decide +kernel
  have hagrees : (new.run events).AgreesOn token ∧ (new.run events).AgreesOn holder := by
    decide +kernel
  obtain ⟨second, hsecond, hsecondTable⟩ := Option.map_eq_some_iff.mp hholder
  obtain ⟨first, hfirst, hshown⟩ := Option.map_eq_some_iff.mp htoken
  obtain ⟨hfirstTable, hplain⟩ := Prod.mk.inj hshown
  have hsecond := eq_ok_of_toOption hsecond
  have hfirst := eq_ok_of_toOption hfirst
  have hj : Join.compile token second.table ["holder"] [("name", some "known"), ("level", none)] =
      .ok ⟨"holder", [1], true, [⟨1, "known", .string⟩, ⟨0, "level", .int64⟩]⟩ := by
    rw [hsecondTable]
    exact eq_ok_of_toOption (by decide +kernel)
  obtain ⟨-, hresolve, hpage⟩ := join_adds_history hsecond (hsecondTable ▸ hagrees.2) hj
  have hpage := hpage "token" first hfirst hfirstTable hagrees.1 layout [.uint64 0] [.uint64 9] 3 10
  rw [eq_ok_of_toOption hplain] at hpage
  rw [hsecondTable] at hresolve hpage
  have hadds : ∀ (row : Row) (block : UInt64) (values : Tuple),
      row.values.map Value.type = [.uint64, .string] →
      (History.ofFiled (new.run events).facts "holder").added token holder ["holder"]
        (holder.select ["name", "level"]) block row = values →
      Join.resolve ⟨"holder", [1], true, [⟨1, "known", .string⟩, ⟨0, "level", .int64⟩]⟩
        second d row block = .ok values :=
    fun row block values hrow hvalues => hvalues ▸ (hresolve row hrow block).1
  exact ⟨first, second, _, hfirst, hsecond, hj, hadds _ _ _ rfl (by decide +kernel),
    hadds _ _ _ rfl (by decide +kernel), hadds _ _ _ rfl (by decide +kernel),
    hadds _ _ _ rfl (by decide +kernel), hpage.trans (congrArg Except.ok (by decide +kernel))⟩

/-- A definition that does not agree with an earlier one has the stored tuples
read by position. The value of a field may then have the type of another
definition, and the key of a longer identity may be taken for that of a version
of a shorter one, which has none. -/
theorem not_join_adds_history :
    let token : Table := ⟨"token", [⟨"id", .uint64⟩, ⟨"holder", .string⟩], ["id"]⟩
    let kv (v : ScalarType) : Table := ⟨"kv", [⟨"k", .string⟩, ⟨"v", v⟩], ["k"]⟩
    let long : Table := ⟨"kv", [⟨"k", .string⟩, ⟨"n", .uint64⟩, ⟨"v", .int64⟩], ["k", "n"]⟩
    let redefined (before after : Table) (identity : Tuple) : Archive :=
      new.run [.call (.registerTable before), .call (.append "kv" (.live identity 3 [.int64 7])),
        .reopen, .call (.registerTable after)]
    let retyped := redefined (kv .int64) (kv .string) [.string "x"]
    let shortened := redefined long (kv .int64) [.string "x", .uint64 5]
    let row : Row := ⟨4, true, [.uint64 1, .string "x"]⟩
    let join (v : ScalarType) : Join := ⟨"kv", [1], true, [⟨1, "v", v⟩]⟩
    Join.compile token (kv .string) ["holder"] [("v", none)] = .ok (join .string) ∧
      Join.compile token (kv .int64) ["holder"] [("v", none)] = .ok (join .int64) ∧
      (∃ second, retyped.database.store "kv" = .ok second ∧ second.table = kv .string ∧
        (join .string).resolve second retyped.database.directory row 4 = .ok [.int64 7]) ∧
      ∃ second, shortened.database.store "kv" = .ok second ∧ second.table = kv .int64 ∧
        (∀ y ∈ shortened.facts, y.fact.identity ≠ [.string "x"]) ∧
        (join .int64).resolve second shortened.database.directory row 18446744073709551615 =
          .ok [.int64 7] := by
  intro token kv long redefined retyped shortened row join
  have hretyped : (retyped.database.store "kv").toOption.map (fun second =>
      (second.table, ((join .string).resolve second retyped.database.directory row 4).toOption)) =
        some (kv .string, some [.int64 7]) := by
    decide +kernel
  have hshortened : (shortened.database.store "kv").toOption.map (fun second =>
      (second.table, ((join .int64).resolve second shortened.database.directory row
        18446744073709551615).toOption)) = some (kv .int64, some [.int64 7]) := by
    decide +kernel
  obtain ⟨second, hsecond, hshown⟩ := Option.map_eq_some_iff.mp hretyped
  obtain ⟨second', hsecond', hshown'⟩ := Option.map_eq_some_iff.mp hshortened
  obtain ⟨htable, hresolve⟩ := Prod.mk.inj hshown
  obtain ⟨htable', hresolve'⟩ := Prod.mk.inj hshown'
  exact ⟨eq_ok_of_toOption (by decide +kernel), eq_ok_of_toOption (by decide +kernel),
    ⟨second, eq_ok_of_toOption hsecond, htable, eq_ok_of_toOption hresolve⟩,
    second', eq_ok_of_toOption hsecond', htable', by decide +kernel, eq_ok_of_toOption hresolve'⟩

end Archive
end Chronicle
