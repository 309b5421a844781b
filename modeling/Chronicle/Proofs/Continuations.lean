import Chronicle.Proofs.QuerySources

/-!
# Continuations

A range is read page by page, each page from the token of the one before and of
a size of its own, while facts of later blocks are appended in between. The
view of the range does not change by that, so the pages show the rows that were
visible at the start, and there is at most one page a row.
-/

namespace Chronicle

open FactStore

/-- One page of a reader, with what is written before the next one. -/
structure PageTurn where
  /-- The number of rows that are asked for. -/
  rows : UInt32
  /-- The facts that are appended after the page, each with its table. -/
  appends : List (String × Fact)

namespace Database

/-- The database after some appends, with any results. -/
def appendAll (db : Database) (appends : List (String × Fact)) : Database :=
  appends.foldl (fun db a => (db.append a.1 a.2).1) db

/-- The pages of a request, from token to token, until there is none or the
turns are used up. -/
def follow (db : Database) (r : Request) : List PageTurn → Except Error (List Response)
  | [] => .ok []
  | turn :: turns => do
    let response ← db.query (r.withMaxResults turn.rows)
    match response.more with
    | none => return [response]
    | some token =>
      return response :: (← (db.appendAll turn.appends).follow (r.resume token) turns)

/-- The last block that a request may see. -/
def lastBlock (q : QueryDefinition) (r : Request) : UInt64 :=
  if q.limitBlock then r.maxBlock else 18446744073709551615

/-- Whether the versions up to a block are those up to the head, or the head is
not before the block. -/
def Settled (d : Directory) (block : UInt64) : Prop :=
  block ≤ d.head ∨ ∀ table, ∀ f ∈ d.history table, f.block ≤ d.head ∨ block < f.block

variable {db : Database} {d d' : Directory} {block : UInt64}

/-- Growth by later blocks leaves a directory settled. -/
theorem Settled.grow (h : Settled d block) (hgrown : d.GrownAfter block d') : Settled d' block := by
  rcases h with hle | hall
  · exact .inl (UInt64.le_trans hle hgrown.head_le)
  · refine .inr fun table f hf => ?_
    obtain ⟨g, hg, hblock⟩ | hlater := hgrown.later hf
    · rw [← hblock]
      exact (hall table g hg).imp_left fun hle => UInt64.le_trans hle hgrown.head_le
    · exact .inr hlater

/-- A settled directory looks alike as of the block and as of the head, where
that is lower. -/
theorem Settled.sameView (h : Settled d block) : d.SameView (min block d.head) d block := by
  change d.SameView (if block ≤ d.head then block else d.head) d block
  split
  · exact .refl
  · rename_i hhead
    refine fun table i => History.versionAt_eq_of_gap ?_ (h.resolve_left hhead table)
    exact UInt64.le_of_lt (UInt64.not_le.mp hhead)

/-- What a request sees is what it may see. -/
theorem snapshot_sameView {q : QueryDefinition} {r : Request}
    (h : q.limitBlock = true → Settled db.directory r.maxBlock) :
    db.directory.SameView (db.snapshot q r) db.directory (lastBlock q r) := by
  rw [snapshot, lastBlock]
  split
  · rename_i hlimit
    exact (h hlimit).sameView
  · exact .refl

namespace InOrder

/-- Appends of later blocks keep a database in order, and grow its directory
alone. -/
theorem appendAll (h : db.InOrder) (hsep : db.catalog.Separate) {appends : List (String × Fact)}
    (hlater : ∀ a ∈ appends, block < a.2.block) :
    ∃ d, db.appendAll appends = { db with directory := d } ∧
      ({ db with directory := d } : Database).InOrder ∧ db.directory.GrownAfter block d := by
  induction appends generalizing db with
  | nil => exact ⟨db.directory, rfl, h, .refl⟩
  | cons a appends ih =>
    obtain ⟨hblock, hrest⟩ := List.forall_mem_cons.mp hlater
    have hafter := h.append hsep a.1 a.2
    have hgrown : db.directory.GrownAfter block (db.append a.1 a.2).1.directory := by
      rw [Database.append]
      cases hs : db.store a.1 with
      | error e => exact .refl
      | ok s =>
        have hs := store_eq_ok.mp hs
        have hkeeps := h.keeps hs
        rw [← h.table_name hs] at hkeeps
        have hgrown := Directory.GrownAfter.append hkeeps.sound hkeeps.recorded hblock
        dsimp only
        split
        · rename_i d e heq
          rwa [heq] at hgrown
        · rename_i d outcome heq
          rw [heq] at hgrown
          exact hgrown.trans (.advance ..)
    obtain ⟨d, hd⟩ := append_eq_withDirectory db a.1 a.2
    rw [hd] at hafter hgrown
    obtain ⟨d', hd', hafter', hgrown'⟩ := ih hafter hsep hrest
    refine ⟨d', ?_, hafter', hgrown.trans hgrown'⟩
    rw [Database.appendAll, List.foldl_cons, hd]
    exact hd'

/-- A query reads one source as long as only the directory changes. -/
theorem ready_of_rangeSource (h : ({ db with directory := d } : Database).InOrder) {name : String}
    {q : PreparedQuery} (hq : db.queries.find name = .ok q) {source : RangeSource}
    (hsource : db.rangeSource q = .ok source) : source.Ready d := by
  obtain ⟨source', hsource', hready⟩ := h.exists_source hq
  rw [show Database.rangeSource { db with directory := d } q = .ok source from hsource] at hsource'
  cases hsource'
  exact hready

end InOrder

/-- Pages that show some rows in order. There is at most one page a row, and
the last one has no token. -/
structure PagesShow (pages : List Response) (rows : List Row) : Prop where
  /-- The pages have the rows, in order and each once. -/
  rows_eq : pages.flatMap (·.rows) = rows
  /-- There is one page, or at most one a row. -/
  length_le : pages.length ≤ max 1 rows.length
  /-- The last page is complete. -/
  ends : ∃ final, pages.getLast? = some final ∧ final.more = none

theorem PagesShow.single {response : Response} (h : response.more = none) :
    PagesShow [response] response.rows :=
  ⟨List.flatMap_singleton .., by rw [List.length_singleton]; omega, response, rfl, h⟩

theorem PagesShow.cons {response : Response} {pages : List Response} {rest : List Row}
    (h : PagesShow pages rest) (hpage : 0 < response.rows.length) (hrest : 0 < rest.length) :
    PagesShow (response :: pages) (response.rows ++ rest) := by
  obtain ⟨hrows, hlength, final, hfinal, hend⟩ := h
  refine ⟨by rw [List.flatMap_cons, hrows], ?_, final, ?_, hend⟩
  · rw [List.length_cons, List.length_append]
    omega
  · rw [List.getLast?_cons, hfinal]
    rfl

/-- An answer is the page of its source as of the last block that the request
may see. -/
theorem query_cases (db : Database) {r : Request} {q : PreparedQuery}
    (hq : db.queries.find r.query = .ok q) {source : RangeSource}
    (hsource : db.rangeSource q = .ok source) (hready : source.Ready db.directory)
    (hfirst : source.layout.IsBound r.first) (hlast : source.layout.IsBound r.last)
    (hlimit : 0 < pageLimit q.definition r)
    (hsettled : q.definition.limitBlock = true → Settled db.directory r.maxBlock) :
    let rows := fun first =>
      source.rows db.directory first r.last (lastBlock q.definition r)
    ∃ response, db.query r = .ok response ∧
      (response.more = none ∧ response.rows = rows r.first ∨
        ∃ token, response.more = some token ∧ source.layout.IsBound token ∧
          rows r.first = response.rows ++ rows token ∧ 0 < response.rows.length ∧
          0 < (rows token).length) := by
  intro rows
  have hrows (first : Tuple) : source.rows db.directory first r.last (db.snapshot q.definition r) =
      rows first := hready.rows_congr hready (snapshot_sameView hsettled)
  obtain ⟨page, hpage, hcases⟩ :=
    hready.page_cases hfirst hlast (db.snapshot q.definition r) hlimit
  simp only [hrows] at hcases
  refine ⟨⟨q.columns, page.rows, page.more⟩, ?_, ?_⟩
  · rw [query_eq hq hsource, hpage]
    rfl
  · obtain ⟨hmore, hall, -⟩ | ⟨token, hmore, htoken, hsplit, hfull, hrest⟩ := hcases
    · exact .inl ⟨hmore, hall⟩
    · exact .inr ⟨token, hmore, htoken, hsplit, hfull ▸ hlimit, hrest⟩

/-- Turns of pages show the rows of a range. Each page leaves the rows from its
token on, which are fewer and which the appends do not change. -/
theorem InOrder.follow_shows {q : PreparedQuery} {source : RangeSource} {r : Request}
    (hsep : db.catalog.Separate) (hq : db.queries.find r.query = .ok q)
    (hsource : db.rangeSource q = .ok source) (hlast : source.layout.IsBound r.last)
    {turns : List PageTurn}
    (hturns : ∀ turn ∈ turns, 0 < pageLimit q.definition (r.withMaxResults turn.rows) ∧
      ∀ a ∈ turn.appends, lastBlock q.definition r < a.2.block)
    (h : ({ db with directory := d } : Database).InOrder)
    (hsettled : q.definition.limitBlock = true → Settled d r.maxBlock) {first : Tuple}
    (hfirst : source.layout.IsBound first)
    (hlength : max 1 (source.rows d first r.last (lastBlock q.definition r)).length ≤
      turns.length) :
    ∃ pages, ({ db with directory := d } : Database).follow (r.resume first) turns = .ok pages ∧
      PagesShow pages (source.rows d first r.last (lastBlock q.definition r)) := by
  induction turns generalizing d first with
  | nil =>
    rw [List.length_nil] at hlength
    omega
  | cons turn turns ih =>
    obtain ⟨⟨hlimit, hlater⟩, hturns⟩ := List.forall_mem_cons.mp hturns
    have hready := h.ready_of_rangeSource hq hsource
    obtain ⟨response, hresponse, hcases⟩ := query_cases { db with directory := d }
      (r := (r.resume first).withMaxResults turn.rows) hq hsource hready hfirst hlast hlimit
      hsettled
    rw [follow, hresponse]
    dsimp only [bind, Except.bind]
    obtain ⟨hmore, hall⟩ | ⟨token, hmore, htoken, hsplit, hpage, hrest⟩ := hcases
    · have hall : response.rows = source.rows d first r.last (lastBlock q.definition r) := hall
      rw [hmore, ← hall]
      exact ⟨[response], rfl, .single hmore⟩
    · obtain ⟨d', hd', hafter, hgrown⟩ := h.appendAll hsep hlater
      have hready' := hafter.ready_of_rangeSource hq hsource
      have hsame : source.rows d' token r.last (lastBlock q.definition r) =
          source.rows d token r.last (lastBlock q.definition r) :=
        hready'.rows_congr hready hgrown.sameView.symm
      have hsplit : source.rows d first r.last (lastBlock q.definition r) = response.rows ++
          source.rows d' token r.last (lastBlock q.definition r) := by
        rw [hsame]
        exact hsplit
      have hrest : 0 < (source.rows d' token r.last (lastBlock q.definition r)).length := by
        rw [hsame]
        exact hrest
      have hshorter := congrArg List.length hsplit
      rw [List.length_append] at hshorter
      rw [List.length_cons] at hlength
      obtain ⟨pages, hpages, hshow⟩ := ih hturns hafter
        (fun hlimited => (hsettled hlimited).grow (by simpa [lastBlock, hlimited] using hgrown))
        htoken (by omega)
      rw [hmore]
      dsimp only
      rw [hd']
      refine ⟨response :: pages, ?_, ?_⟩
      · rw [show (r.resume first).resume token = r.resume token from rfl, hpages]
        rfl
      · rw [hsplit]
        exact hshow.cons hpage hrest

/-- Continued pages are complete. After any calls that give no two indexes one
tree, pages of any sizes show the rows that a range has at the start, whatever
is appended in between for blocks that the request may not see. Pages that are
read at once show the same rows. The rows are those of the table, the index and
the join that the definition of the query names in the catalog. -/
theorem follow_complete {calls : List DatabaseCall}
    (hsep : ((ofDirectory .empty).run calls).catalog.Separate) {r : Request} {q : PreparedQuery}
    (hq : ((ofDirectory .empty).run calls).queries.find r.query = .ok q) :
    let db := (ofDirectory .empty).run calls
    let block := if q.definition.limitBlock then min r.maxBlock db.headBlock
      else 18446744073709551615
    ∃ source, db.rangeSource q = .ok source ∧ q.definition.Reads db.catalog source ∧
      (source.layout.checkBound r.first = .ok () → source.layout.checkBound r.last = .ok () →
        (q.definition.limitBlock = true → r.maxBlock ≤ db.headBlock ∨
          ∀ table, ∀ f ∈ db.directory.history table, f.block ≤ db.headBlock) →
        let rows := source.rows db.directory r.first r.last block
        (∀ turns : List PageTurn,
          (∀ turn ∈ turns, 0 < (min turn.rows q.definition.maxResults).toNat ∧
            ∀ a ∈ turn.appends, lastBlock q.definition r < a.2.block) →
          max 1 rows.length ≤ turns.length →
          ∃ pages, db.follow r turns = .ok pages ∧ PagesShow pages rows) ∧
        ∀ limit, 0 < limit →
          source.allRows db.directory r.first r.last block limit = .ok rows) := by
  intro db block
  have h : db.InOrder := inOrder_empty.run hsep
  obtain ⟨source, hsource, hready, hreads, -⟩ := h.exists_reads (prepared_empty.run calls) hq
  refine ⟨source, hsource, hreads, ?_⟩
  intro hfirst hlast hhead rows
  have hfirst := Layout.checkBound_eq_ok.mp hfirst
  have hlast := Layout.checkBound_eq_ok.mp hlast
  have hsettled : q.definition.limitBlock = true → Settled db.directory r.maxBlock :=
    fun hlimited => (hhead hlimited).imp_right fun hall table f hf => .inl (hall table f hf)
  have hrows : rows = source.rows db.directory r.first r.last (lastBlock q.definition r) :=
    hready.rows_congr hready (snapshot_sameView hsettled)
  refine ⟨fun turns hturns hlength => ?_, fun limit hlimit => hready.allRows_eq hfirst hlast hlimit⟩
  rw [hrows] at hlength ⊢
  exact InOrder.follow_shows hsep hq hsource hlast hturns h hsettled hfirst hlength

/-- Two items are read one by one, each with the rank of its owner. In between a
third item, a new rank and the rank of an unknown owner are appended for later
blocks, and none of them is seen. -/
theorem sample_follow_complete :
    let configuration : Configuration :=
      { tables := [⟨"item", [⟨"id", .string⟩, ⟨"owner", .string⟩], ["id"]⟩,
          ⟨"owner", [⟨"name", .string⟩, ⟨"level", .uint32⟩], ["name"]⟩]
        indexes := [⟨"item_by_id", "item", [.desc "id"]⟩]
        queries := [⟨"items", "item_by_id", true, 10,
          some ⟨"owner", ["owner"], [⟨"level", some "rank"⟩]⟩⟩] }
    let item (id owner : String) (block : UInt64) : String × Fact :=
      ("item", .live [.string id] block [.string owner])
    let owner (name : String) (block : UInt64) (level : UInt32) : String × Fact :=
      ("owner", .live [.string name] block [.uint32 level])
    let row (id owner : String) (block : UInt64) (rank : UInt32) : Row :=
      ⟨block, true, [.string id, .string owner, .uint32 rank]⟩
    let db := (ofDirectory .empty).run (.load configuration ::
      [owner "ann" 1 3, item "b" "bob" 4, item "a" "ann" 5].map fun a => .append a.1 a.2)
    let r : Request := ⟨"items", 5, [.string "~"], [.string ""], 1⟩
    ∃ pages, db.follow r
        [⟨1, [item "aa" "ann" 6, owner "ann" 6 8, owner "bob" 7 9]⟩, ⟨1, []⟩] = .ok pages ∧
      PagesShow pages [row "b" "bob" 4 0, row "a" "ann" 5 3] := by
  intro configuration item owner row db r
  let q : PreparedQuery := ⟨⟨"items", "item_by_id", true, 10,
      some ⟨"owner", ["owner"], [⟨"level", some "rank"⟩]⟩⟩, "item", ["id", "owner", "rank"],
    some ⟨"owner", [1], true, [⟨1, "rank", .uint32⟩]⟩⟩
  have hsep : db.catalog.Separate := Catalog.separate_of_indexes (by decide +kernel)
  have hq : db.queries.find r.query = .ok q := Registry.find_eq_ok.mpr (by decide +kernel)
  obtain ⟨source, hsource, -, h⟩ := follow_complete hsep hq
  have hchecked : ((db.rangeSource q).toOption.all fun source =>
      decide (source.layout.IsBound r.first ∧ source.layout.IsBound r.last ∧
        source.rows db.directory r.first r.last 5 =
          [row "b" "bob" 4 0, row "a" "ann" 5 3])) = true := by
    decide +kernel
  rw [hsource] at hchecked
  obtain ⟨hfirst, hlast, hrows⟩ := of_decide_eq_true hchecked
  obtain ⟨hpages, -⟩ := h (Layout.checkBound_eq_ok.mpr hfirst)
    (Layout.checkBound_eq_ok.mpr hlast) fun _ => .inl (by decide +kernel)
  have hblock : (if q.definition.limitBlock then min r.maxBlock db.headBlock
      else 18446744073709551615) = 5 := by
    decide +kernel
  rw [hblock, hrows] at hpages
  exact hpages _ (by decide +kernel) (by decide)

end Database
end Chronicle
