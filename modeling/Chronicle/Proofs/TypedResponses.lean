import Chronicle.Proofs.QuerySources

/-!
# Typed responses

Every row that a source shows has a value of the right type for each column. In
a session on a new directory an installed query therefore answers every request
whose bounds have the types of the sort keys, and refuses every other.
-/

namespace Chronicle

open FactStore

/-- A join adds a value of its type for each field, whether the second identity
is found or not. -/
theorem History.types_joined {h : History} {second : Table} {j : Join} {first : Table}
    (hj : j.Reads first second) {block : UInt64} (hrows : ∀ i found,
      h.row second block i = some found →
        found.values.map Value.type = second.fields.map (·.type)) (row : Row) :
    (h.joined second j block row).map Value.type = j.fields.map (·.type) := by
  have hdefaults : j.defaults.map Value.type = j.fields.map (·.type) := by
    simp [Join.defaults, Function.comp_def, type_default]
  rw [joined]
  split
  · exact hdefaults
  · split
    · exact hdefaults
    · rename_i found hfound
      exact (Join.pick_eq (hrows _ _ hfound) hj.field_types).2

namespace RangeSource

variable {source : RangeSource} {d : Directory} {block : UInt64} {i : Tuple} {row : Row}

/-- A row that is seen has a value of its type for each column. -/
theorem Ready.types_seen (hs : source.Ready d) (hrow : source.seen d block i = some row) :
    row.values.map Value.type = source.columns.map Prod.snd := by
  obtain ⟨known, hkeeps⟩ := hs.keeps
  obtain ⟨plain, hplain, rfl⟩ := Option.map_eq_some_iff.mp hrow
  have htypes := History.types_row hkeeps.sound.table hkeeps.recorded.fits hplain
  rw [columns]
  cases hj : source.join with
  | none => simpa [Table.columns, Function.comp_def] using htypes
  | some join =>
    obtain ⟨hreads, hsound, hrecorded⟩ := hs.joins join hj
    have hjoined := History.types_joined hreads (hrecorded.shows hsound block).types_row plain
    simp [Table.columns, Join.columns, Function.comp_def, htypes, hjoined]

/-- A row that is seen shows a version of no later block. -/
theorem block_le_of_seen (hrow : source.seen d block i = some row) : row.block ≤ block := by
  obtain ⟨plain, hplain, rfl⟩ := Option.map_eq_some_iff.mp hrow
  obtain ⟨v, hv, rfl⟩ := Option.map_eq_some_iff.mp hplain
  obtain ⟨-, -, -, -, hle⟩ := History.exists_fact_of_versionAt hv
  cases source.join <;> exact hle

end RangeSource

/-- A response with rows of the given columns and of versions up to a block, at
most so many, whose token is a bound of the index. -/
structure Response.Answers (response : Response) (columns : List (String × ScalarType))
    (block : UInt64) (limit : Nat) (l : Layout) : Prop where
  /-- The columns have their labels. -/
  labels_eq : response.columns = columns.map Prod.fst
  /-- A row has a value of its type for each column. -/
  types_eq : ∀ row ∈ response.rows, row.values.map Value.type = columns.map Prod.snd
  /-- A row shows a version of no later block. -/
  block_le : ∀ row ∈ response.rows, row.block ≤ block
  /-- There are no more rows than are asked for. -/
  length_le : response.rows.length ≤ limit
  /-- A token is a bound. -/
  token_ok : ∀ token, response.more = some token → l.checkBound token = .ok ()

namespace RangeSource

variable {source : RangeSource} {d : Directory} {block : UInt64} {limit : Nat} {first last : Tuple}

/-- A source that is ready answers between any two bounds. A page without room
for a row starts over at its first bound. -/
theorem Ready.exists_answer (hs : source.Ready d) (hfirst : source.layout.IsBound first)
    (hlast : source.layout.IsBound last) (block : UInt64) (limit : Nat) :
    ∃ page, source.page d first last block limit = .ok page ∧
      Response.Answers ⟨source.columns.map Prod.fst, page.rows, page.more⟩ source.columns block
        limit source.layout := by
  obtain rfl | hlimit := Nat.eq_zero_or_pos limit
  · refine ⟨⟨[], some first, 0⟩, ?_, rfl, by simp, by simp, by simp, fun token htoken => ?_⟩
    · rw [page, Layout.checkBound_eq_ok.mpr hfirst, Layout.checkBound_eq_ok.mpr hlast]
      rfl
    · cases htoken
      exact Layout.checkBound_eq_ok.mpr hfirst
  · obtain ⟨page, hpage, hrows, hmore⟩ := hs.exists_page (m := block) hfirst hlast hlimit
    have hseen : ∀ row ∈ page.rows, ∃ i, source.seen d block i = some row := fun row hrow => by
      rw [hrows] at hrow
      obtain ⟨i, -, hi⟩ := List.mem_filterMap.mp hrow
      exact ⟨i, hi⟩
    refine ⟨page, hpage, rfl, fun row hrow => ?_, fun row hrow => ?_, ?_, fun token htoken => ?_⟩
    · obtain ⟨i, hi⟩ := hseen row hrow
      exact hs.types_seen hi
    · obtain ⟨i, hi⟩ := hseen row hrow
      exact block_le_of_seen hi
    · calc page.rows.length
          ≤ ((source.visible d first last block).take limit).length := by
            rw [hrows]
            exact List.length_filterMap_le ..
        _ ≤ limit := List.length_take_le ..
    · obtain ⟨i, hi, rfl⟩ := Option.map_eq_some_iff.mp (hmore.symm.trans htoken)
      exact Layout.checkBound_eq_ok.mpr (hs.isBound_of_visible (List.mem_of_getElem? hi))

/-- A page between tuples that are not both bounds is refused, also where it
would have no rows. -/
theorem page_of_not_bounds (h : ¬(source.layout.IsBound first ∧ source.layout.IsBound last)) :
    ∃ cause, source.page d first last block limit = .error (.violation cause) := by
  rw [page]
  by_cases hfirst : source.layout.IsBound first
  · obtain ⟨cause, hlast⟩ := Layout.checkBound_eq_error fun hlast => h ⟨hfirst, hlast⟩
    rw [Layout.checkBound_eq_ok.mpr hfirst]
    dsimp only [bind, Except.bind]
    rw [hlast]
    exact ⟨cause, rfl⟩
  · obtain ⟨cause, hfirst⟩ := Layout.checkBound_eq_error hfirst
    rw [hfirst]
    exact ⟨cause, rfl⟩

end RangeSource

namespace Database

variable {db : Database} {q : PreparedQuery}

/-- Installed queries answer every request between bounds. After any calls that
give no two indexes one tree, a request whose bounds fit the index has a
response with typed rows, and every other request is refused. The index and the
columns are those that the definition of the query names in the catalog. -/
theorem query_answers (calls : List DatabaseCall)
    (hsep : ((ofDirectory .empty).run calls).catalog.Separate) {r : Request}
    (hq : ((ofDirectory .empty).run calls).queries.find r.query = .ok q) :
    let db := (ofDirectory .empty).run calls
    let block := if q.definition.limitBlock then min r.maxBlock db.headBlock
      else 18446744073709551615
    ∃ source, q.definition.name = r.query ∧ q.definition.Reads db.catalog source ∧
      (source.layout.checkBound r.first = .ok () ∧ source.layout.checkBound r.last = .ok () →
        ∃ response, db.query r = .ok response ∧
          response.Answers source.columns block (min r.maxResults q.definition.maxResults).toNat
            source.layout) ∧
      (¬(source.layout.checkBound r.first = .ok () ∧ source.layout.checkBound r.last = .ok ()) →
        ∃ cause, db.query r = .error (.violation cause)) := by
  intro db block
  have h : db.InOrder := inOrder_empty.run hsep
  have hprepared : db.Prepared := prepared_empty.run calls
  obtain ⟨source, hsource, hready, hreads, hlabels⟩ := h.exists_reads hprepared hq
  refine ⟨source, (hprepared _ q (Registry.find_eq_ok.mp hq)).1, hreads, ?_, ?_⟩
  all_goals rw [query_eq hq hsource]
  · rintro ⟨hfirst, hlast⟩
    obtain ⟨page, hpage, hanswers⟩ := hready.exists_answer (Layout.checkBound_eq_ok.mp hfirst)
      (Layout.checkBound_eq_ok.mp hlast) block (pageLimit q.definition r)
    rw [show db.snapshot q.definition r = block from rfl, hpage]
    exact ⟨_, rfl, hlabels ▸ hanswers⟩
  · intro hbounds
    rw [Layout.checkBound_eq_ok, Layout.checkBound_eq_ok] at hbounds
    obtain ⟨cause, hpage⟩ := RangeSource.page_of_not_bounds hbounds
    exact ⟨cause, by rw [hpage]; rfl⟩

/-- Items are shown with the rank of their owner, whose column has a label of
its own. One of two items is too new to be seen, and its owner is unknown. A
request for no rows is refused where a bound has no value. -/
theorem sample_query_answers :
    let configuration : Configuration :=
      { tables := [⟨"item", [⟨"id", .string⟩, ⟨"owner", .string⟩], ["id"]⟩,
          ⟨"owner", [⟨"name", .string⟩, ⟨"level", .uint32⟩], ["name"]⟩]
        indexes := [⟨"item_by_id", "item", [.asc "id"]⟩]
        queries := [⟨"items", "item_by_id", true, 10,
          some ⟨"owner", ["owner"], [⟨"level", some "rank"⟩]⟩⟩] }
    let db := (ofDirectory .empty).run [.load configuration,
      .append "owner" (.live [.string "ann"] 1 [.uint32 3]),
      .append "item" (.live [.string "a"] 2 [.string "ann"]),
      .append "item" (.live [.string "b"] 3 [.string "bob"]), .setHeadBlock 2]
    let r : Request := ⟨"items", 9, [.string ""], [.string "~"], 5⟩
    (∃ response l, db.query r = .ok response ∧
      response.Answers [("id", .string), ("owner", .string), ("rank", .uint32)] 2 5 l ∧
      response.rows = [⟨2, true, [.string "a", .string "ann", .uint32 3]⟩]) ∧
      ∃ cause, db.query ⟨"items", 9, [], [.string "~"], 0⟩ = .error (.violation cause) := by
  intro configuration db r
  let q : PreparedQuery := ⟨⟨"items", "item_by_id", true, 10,
      some ⟨"owner", ["owner"], [⟨"level", some "rank"⟩]⟩⟩, "item", ["id", "owner", "rank"],
    some ⟨"owner", [1], true, [⟨1, "rank", .uint32⟩]⟩⟩
  have hsep : db.catalog.Separate := Catalog.separate_of_indexes (by decide +kernel)
  have hq : db.queries.find "items" = .ok q := Registry.find_eq_ok.mpr (by decide +kernel)
  let layout : Layout := ⟨"item_by_id", "item", [⟨"id", 0, .string, none, .asc⟩]⟩
  have hlayout : ((db.catalog.index "item_by_id").bind fun i =>
      (db.catalog.table i.table).bind i.compile).toOption = some layout := by
    decide +kernel
  have hcolumns : q.definition.columns? db.catalog =
      some [("id", .string), ("owner", .string), ("rank", .uint32)] := by
    decide +kernel
  constructor
  · obtain ⟨source, -, ⟨⟨i, hi, ht, hl⟩, -, hcolumns'⟩, hanswers, -⟩ :=
      query_answers _ hsep (r := r) hq
    rw [show db.catalog.index "item_by_id" = .ok i from hi, Except.bind,
      show db.catalog.table i.table = .ok _ from ht, Except.bind, hl] at hlayout
    rw [Option.some.inj hlayout, Option.some.inj (hcolumns'.symm.trans hcolumns)] at hanswers
    obtain ⟨response, hresponse, h⟩ := hanswers ⟨rfl, rfl⟩
    have hrows : (db.query r).toOption.map Response.rows =
        some [⟨2, true, [.string "a", .string "ann", .uint32 3]⟩] := by
      decide +kernel
    rw [show db.query r = .ok response from hresponse] at hrows
    exact ⟨response, layout, hresponse, h, Option.some.inj hrows⟩
  · obtain ⟨source, -, ⟨⟨i, hi, ht, hl⟩, -, -⟩, -, hrefused⟩ :=
      query_answers _ hsep (r := ⟨"items", 9, [], [.string "~"], 0⟩) hq
    rw [show db.catalog.index "item_by_id" = .ok i from hi, Except.bind,
      show db.catalog.table i.table = .ok _ from ht, Except.bind, hl] at hlayout
    rw [Option.some.inj hlayout] at hrefused
    exact hrefused fun h => by cases h.1

end Database
end Chronicle
