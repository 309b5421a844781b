import Chronicle.Format.Report
import Chronicle.Proofs.Outlooks
import Chronicle.Proofs.TypedResponses

/-!
# Printed rows

A row is printed as one object that holds its block, its presence and its
columns. A row of an installed query has a value for each column, and the
columns have different labels, so each column is shown. The two members that
describe the version are shown as long as no column takes their names, which
nothing excludes.
-/

namespace Chronicle

/-- The member of a name. -/
def Json.member? (j : Json) (name : String) : Option Json :=
  match j with
  | .object members => SortedMap.find name members
  | _ => none

namespace Report

/-- An object that shows a row with the given columns. It has no other members
than the columns and the two that describe the version. -/
structure Shows (columns : List String) (row : Row) (shown : Json) : Prop where
  /-- Each column has its value. -/
  column : ∀ (p : Nat) (label : String), columns[p]? = some label →
    ∃ v, row.values[p]? = some v ∧ shown.member? label = some v.toJson
  /-- The block is that of the row. -/
  block : "block_index" ∉ columns → shown.member? "block_index" = some (.integer row.block.toNat)
  /-- The presence is that of the row. -/
  present : "present" ∉ columns → shown.member? "present" = some (.bool row.present)
  /-- There are no other members. -/
  other : ∀ name, name ∉ columns → name ≠ "block_index" → name ≠ "present" →
    shown.member? name = none

variable {columns : List String} {row : Row}

/-- The members of the columns have the names of the columns. -/
theorem map_fst_columnMembers (h : row.values.length = columns.length) :
    (columns.zip (row.values.map Value.toJson)).map Prod.fst = columns :=
  List.map_fst_zip (by rw [List.length_map, h])

/-- A member of the columns is named for one of them. -/
theorem ne_of_mem_columnMembers {name : String} (hname : name ∉ columns) :
    ∀ e ∈ columns.zip (row.values.map Value.toJson), e.1 ≠ name := fun _ he hk =>
  hname (hk ▸ (List.of_mem_zip he).1)

/-- Columns with different labels are all shown. -/
theorem shows_rowObject (hcolumns : columns.Nodup) (hlength : row.values.length = columns.length) :
    Shows columns row (rowObject columns row) := by
  refine ⟨fun p label hlabel => ?_, fun hname => ?_, fun hname => ?_,
    fun name hname hblock hpresent => ?_⟩
  · obtain ⟨hp, -⟩ := List.getElem?_eq_some_iff.mp hlabel
    have hv : row.values[p]? = some row.values[p] := List.getElem?_eq_getElem (hlength ▸ hp)
    have hjson : (row.values.map Value.toJson)[p]? = some row.values[p].toJson := by
      rw [List.getElem?_map, hv, Option.map_some]
    have hmem : (label, row.values[p].toJson) ∈ columns.zip (row.values.map Value.toJson) :=
      List.mem_of_getElem? (List.getElem?_zip_eq_some.mpr ⟨hlabel, hjson⟩)
    have hnames : ((columns.zip (row.values.map Value.toJson)).map Prod.fst).Nodup := by
      rw [map_fst_columnMembers hlength]
      exact hcolumns
    -- The columns are bound last and replace the two members that describe the version.
    exact ⟨_, hv, SortedMap.get?_ofList_append (l := [("block_index", _), ("present", _)])
      hnames hmem⟩
  · have hrest : ∀ e ∈ ("present", Json.bool row.present) ::
        columns.zip (row.values.map Value.toJson), e.1 ≠ "block_index" :=
      List.forall_mem_cons.mpr ⟨(by decide : "present" ≠ "block_index"),
        ne_of_mem_columnMembers hname⟩
    exact SortedMap.get?_ofList_of_last (l := []) hrest
  · exact SortedMap.get?_ofList_of_last (l := [("block_index", _)]) (ne_of_mem_columnMembers hname)
  · have hother : ∀ e ∈ ("block_index", Json.integer row.block.toNat) ::
        ("present", Json.bool row.present) :: columns.zip (row.values.map Value.toJson),
        e.1 ≠ name :=
      List.forall_mem_cons.mpr ⟨Ne.symm hblock, List.forall_mem_cons.mpr
        ⟨Ne.symm hpresent, ne_of_mem_columnMembers hname⟩⟩
    exact SortedMap.get?_ofList_eq_none hother

end Report

/-- An assembled row has a value for each field. -/
theorem Table.length_assembleFields {t : Table} {identity : Tuple} {fields : List Field}
    {payload values : Tuple} (h : t.assembleFields identity fields payload = .ok values) :
    values.length = fields.length := by
  induction fields generalizing payload values with
  | nil =>
    cases h
    rfl
  | cons f fields ih =>
    have hmap : ∀ {rest : Except Error Tuple} {v : Value},
        (∀ tail, rest = .ok tail → tail.length = fields.length) →
          rest.map (v :: ·) = .ok values → values.length = fields.length + 1 := by
      intro rest v hrest hvalues
      obtain ⟨tail, htail, rfl⟩ := map_eq_ok.mp hvalues
      rw [List.length_cons, hrest tail htail]
    rw [assembleFields.eq_def] at h
    dsimp only at h
    split at h
    · split at h
      · cases h
      · exact hmap (fun _ => ih) h
    · split at h
      · exact hmap (fun _ => ih) h
      · exact hmap (fun _ => ih) h

/-- A row that is resolved has a value for each field of the table. -/
theorem FactStore.length_resolveRow {s : FactStore} {d : Directory} {i : Tuple} {block : UInt64}
    {row : Row} (h : s.resolveRow d i block = .ok (some row)) :
    row.values.length = s.table.fields.length := by
  obtain ⟨seen, -, h⟩ := bind_eq_ok.mp h
  cases seen with
  | absent => cases h
  | tombstone b =>
    obtain ⟨values, hvalues, h⟩ := map_eq_ok.mp h
    cases h
    exact Table.length_assembleFields hvalues
  | live v =>
    obtain ⟨values, hvalues, h⟩ := map_eq_ok.mp h
    cases h
    exact Table.length_assembleFields hvalues

/-- A join adds a value for each of its fields. -/
theorem Join.length_resolve {j : Join} {second : FactStore} {d : Directory} {row : Row}
    {block : UInt64} {values : Tuple} (h : j.resolve second d row block = .ok values) :
    values.length = j.fields.length := by
  rw [resolve] at h
  split at h
  · cases h
    exact List.length_map _
  · obtain ⟨key, -, h⟩ := bind_eq_ok.mp h
    obtain ⟨found, -, h⟩ := bind_eq_ok.mp h
    cases found with
    | none =>
      cases h
      exact List.length_map _
    | some found =>
      have hpicked := congrArg List.length (map_of_mapM_ok h)
      rw [List.length_map, List.length_map, List.length_map] at hpicked
      exact hpicked.symm

/-- A row of a source has a value for each column. -/
theorem RangeSource.length_of_rowAt {source : RangeSource} {d : Directory} {block : UInt64}
    {i : Tuple} {row : Row} (h : source.rowAt d block i = .ok (some row)) :
    row.values.length = source.columns.length := by
  obtain ⟨-, plain, hplain, hjoin⟩ := resolve_of_rowAt_some h
  have hlength := FactStore.length_resolveRow hplain
  rw [columns, List.length_append, Table.columns, List.length_map]
  cases hj : source.join with
  | none =>
    rw [hj] at hjoin
    rw [show row = plain from hjoin, hlength]
    rfl
  | some join =>
    rw [hj] at hjoin
    obtain ⟨joined, hjoined, rfl⟩ := hjoin
    have hadded := Join.length_resolve hjoined
    rw [List.length_append, hlength, hadded, Option.map_some, Option.getD_some, Join.columns,
      List.length_map]

namespace Database

/-- The columns of a response have different labels, and a row has a value for
each of them. -/
theorem columns_of_query {db : Database} (h : db.Opened) (hprepared : db.Prepared) {r : Request}
    {q : PreparedQuery} (hq : db.queries.find r.query = .ok q) {response : Response}
    (hresponse : db.query r = .ok response) :
    response.columns.Nodup ∧
      ∀ row ∈ response.rows, row.values.length = response.columns.length := by
  obtain ⟨-, hcompiled⟩ := hprepared _ q (Registry.find_eq_ok.mp hq)
  obtain ⟨-, -, -, -, -, hrepeat, -⟩ := PreparedQuery.compile_eq_ok.mp hcompiled
  have hnodup : q.columns.Nodup := (firstRepeat_eq_none.mp hrepeat).1
  obtain ⟨q', hq', hanswer⟩ := bind_eq_ok.mp hresponse
  rw [hq] at hq'
  cases hq'
  obtain ⟨source, hsource, -⟩ := bind_eq_ok.mp hanswer
  rw [query_eq hq hsource] at hresponse
  obtain ⟨page, hpage, rfl⟩ := map_eq_ok.mp hresponse
  obtain ⟨-, hlabels⟩ := h.reads_of_rangeSource hcompiled hsource
  refine ⟨hnodup, fun row hrow => ?_⟩
  obtain ⟨i, hi⟩ := RangeSource.rowAt_of_mem_page hpage hrow
  rw [RangeSource.length_of_rowAt hi, hlabels, List.length_map]

/-- What a page of results looks like in JSON. In any session on any directory,
each response to an installed query is printed with one object for each row, in
order. The object shows every column, its block and its presence unless a column
has that name, and nothing else. -/
theorem response_shows_rows (d : Directory) (calls : List DatabaseCall) {r : Request}
    {q : PreparedQuery} (hq : ((ofDirectory d).run calls).queries.find r.query = .ok q)
    {response : Response} (hresponse : ((ofDirectory d).run calls).query r = .ok response) :
    Report.response .json response =
        (Json.object [("more", (response.more.map Tuple.toJson).getD .null),
          ("rows", .array (response.rows.map (Report.rowObject response.columns)))]).text ∧
      ∀ row ∈ response.rows,
        Report.Shows response.columns row (Report.rowObject response.columns row) := by
  have h : ((ofDirectory d).run calls).Opened := (Opened.ofDirectory d).run calls
  have hprepared : ((ofDirectory d).run calls).Prepared := (prepared_ofDirectory d).run calls
  obtain ⟨hnodup, hlength⟩ := columns_of_query h hprepared hq hresponse
  refine ⟨?_, fun row hrow => Report.shows_rowObject hnodup (hlength row hrow)⟩
  rw [Report.response]
  cases response.more <;> rfl

/-- A door that is closed since block 7 is shown with its column and its version. -/
theorem sample_response_shows_rows :
    let db := (ofDirectory .empty).run [
      .load ⟨[⟨"door", [⟨"id", .string⟩, ⟨"open", .bool⟩], ["id"]⟩],
        [⟨"door_by_id", "door", [.asc "id"]⟩], [⟨"doors", "door_by_id", true, 10, none⟩]⟩,
      .append "door" (.live [.string "a"] 7 [.bool false])]
    let row : Row := ⟨7, true, [.string "a", .bool false]⟩
    db.query ⟨"doors", 9, [.string ""], [.string "~"], 5⟩ = .ok ⟨["id", "open"], [row], none⟩ ∧
      Report.Shows ["id", "open"] row (Report.rowObject ["id", "open"] row) := by
  intro db row
  let q : PreparedQuery := ⟨⟨"doors", "door_by_id", true, 10, none⟩, "door", ["id", "open"], none⟩
  have hq : db.queries.find "doors" = .ok q := Registry.find_eq_ok.mpr (by decide +kernel)
  have hresponse : db.query ⟨"doors", 9, [.string ""], [.string "~"], 5⟩ =
      .ok ⟨["id", "open"], [row], none⟩ := eq_ok_of_toOption (by decide +kernel)
  obtain ⟨-, hshows⟩ := response_shows_rows .empty _ hq hresponse
  exact ⟨hresponse, hshows row (List.mem_cons_self ..)⟩

/-- A field that is named for the presence of a row hides it. The door is live and
its object says that it is not. -/
theorem not_response_shows_versions :
    ¬∀ (calls : List DatabaseCall) (r : Request) (q : PreparedQuery) (response : Response),
      ((ofDirectory .empty).run calls).queries.find r.query = .ok q →
      ((ofDirectory .empty).run calls).query r = .ok response → ∀ row ∈ response.rows,
        let shown := Report.rowObject response.columns row
        shown.member? "block_index" = some (.integer row.block.toNat) ∧
          shown.member? "present" = some (.bool row.present) ∧
          ∀ (p : Nat) (label : String), response.columns[p]? = some label →
            ∃ v, row.values[p]? = some v ∧ shown.member? label = some v.toJson := by
  intro h
  let calls : List DatabaseCall := [
    .load ⟨[⟨"door", [⟨"id", .string⟩, ⟨"present", .bool⟩], ["id"]⟩],
      [⟨"door_by_id", "door", [.asc "id"]⟩], [⟨"doors", "door_by_id", true, 10, none⟩]⟩,
    .append "door" (.live [.string "a"] 7 [.bool false])]
  let q : PreparedQuery :=
    ⟨⟨"doors", "door_by_id", true, 10, none⟩, "door", ["id", "present"], none⟩
  let row : Row := ⟨7, true, [.string "a", .bool false]⟩
  have hq : ((ofDirectory .empty).run calls).queries.find "doors" = .ok q :=
    Registry.find_eq_ok.mpr (by decide +kernel)
  have hresponse : ((ofDirectory .empty).run calls).query
      ⟨"doors", 9, [.string ""], [.string "~"], 5⟩ = .ok ⟨["id", "present"], [row], none⟩ :=
    eq_ok_of_toOption (by decide +kernel)
  obtain ⟨-, hpresent, hcolumns⟩ := h calls _ q _ hq hresponse row (List.mem_cons_self ..)
  obtain ⟨v, hv, hcolumn⟩ := hcolumns 1 "present" rfl
  cases hv
  rw [hpresent] at hcolumn
  cases hcolumn

end Database
end Chronicle
