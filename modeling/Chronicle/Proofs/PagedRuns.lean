import Chronicle.Paging
import Chronicle.Proofs.TypedResponses

/-!
# Runs over all pages

A run for all rows follows the tokens from page to page. It stops at a page
without a token, or at a token that is the bound just used. The second happens
only if a page has no room for a row: a full page is followed by fewer rows than
it began with, so its token is another bound. The pages of a run are then full
but for the last one, and their number is that of the rows over the size of a
page.
-/

namespace Chronicle

namespace Database

/-- Pages that have some rows in order, all of them full but for the last. -/
structure PagesFill (pages : List Response) (rows : List Row) (limit : Nat) : Prop where
  /-- The pages have the rows, in order and each once. -/
  rows_eq : pages.flatMap (·.rows) = rows
  /-- All pages but the last are full. -/
  full : ∀ page ∈ pages.dropLast, page.rows.length = limit
  /-- There is one page, or as many as the rows fill. -/
  length_eq : pages.length = max 1 ((rows.length + limit - 1) / limit)

namespace PagesFill

variable {limit : Nat} {response : Response} {pages : List Response} {rest : List Row}

theorem single (hlimit : 0 < limit) (h : response.rows.length ≤ limit) :
    PagesFill [response] response.rows limit := by
  refine ⟨by simp, by simp, ?_⟩
  have hle : (response.rows.length + limit - 1) / limit ≤ 1 :=
    Nat.le_of_lt_succ (Nat.div_lt_of_lt_mul (by omega))
  rw [List.length_singleton, max_eq_left hle]

/-- A full page goes before pages of further rows. -/
theorem cons (h : PagesFill pages rest limit) (hpage : response.rows.length = limit)
    (hlimit : 0 < limit) (hrest : 0 < rest.length) :
    PagesFill (response :: pages) (response.rows ++ rest) limit := by
  have hpages : pages ≠ [] := by
    rintro rfl
    have := h.length_eq
    rw [List.length_nil] at this
    omega
  refine ⟨by rw [List.flatMap_cons, h.rows_eq], ?_, ?_⟩
  · rw [List.dropLast_cons_of_ne_nil hpages]
    exact List.forall_mem_cons.mpr ⟨hpage, h.full⟩
  · have hquotient : (limit + rest.length + limit - 1) / limit =
        (rest.length + limit - 1) / limit + 1 := by
      rw [show limit + rest.length + limit - 1 = rest.length + limit - 1 + limit by omega,
        Nat.add_div_right _ hlimit]
    have hone : 1 ≤ (rest.length + limit - 1) / limit :=
      (Nat.one_le_div_iff hlimit).mpr (by omega)
    rw [List.length_cons, h.length_eq, List.length_append, hpage, hquotient]
    omega

/-- There are no more pages than rows, unless there is none. -/
theorem length_le (h : PagesFill pages rest limit) (hlimit : 0 < limit) :
    pages.length ≤ max 1 rest.length := by
  have hle : (rest.length + limit - 1) / limit ≤ rest.length := by
    have hrows : rest.length ≤ limit * rest.length := Nat.le_mul_of_pos_left _ hlimit
    refine Nat.le_of_lt_succ (Nat.div_lt_of_lt_mul ?_)
    rw [Nat.mul_succ]
    omega
  rw [h.length_eq]
  generalize (rest.length + limit - 1) / limit = filled at hle ⊢
  omega

end PagesFill

variable {db : Database} {q : PreparedQuery} {source : RangeSource} {r : Request}

/-- A run for all pages fills them, from any bound on and whatever fuel it has beyond a
unit a page. The induction is on the number of rows, and a token leaves fewer. -/
theorem exists_followPages (hq : db.queries.find r.query = .ok q)
    (hsource : db.rangeSource q = .ok source) (hready : source.Ready db.directory)
    (hlast : source.layout.IsBound r.last) (hlimit : 0 < pageLimit q.definition r)
    {first : Tuple} (hfirst : source.layout.IsBound first) :
    ∃ pages, PagesFill pages
        (source.rows db.directory first r.last (db.snapshot q.definition r))
        (pageLimit q.definition r) ∧
      ∀ fuel before, pages.length ≤ fuel →
        db.followPages true fuel before (r.resume first) =
          (pages, .ok (before + pages.length)) := by
  induction hrows : (source.rows db.directory first r.last
      (db.snapshot q.definition r)).length using Nat.strong_induction_on generalizing first with
  | _ n ih =>
    obtain ⟨page, hpage, hcases⟩ :=
      hready.page_cases hfirst hlast (db.snapshot q.definition r) hlimit
    have hquery : db.query (r.resume first) = .ok ⟨q.columns, page.rows, page.more⟩ := by
      rw [query_eq (r := r.resume first) hq hsource]
      exact congrArg (Except.map _) hpage
    obtain ⟨hmore, hall, hle⟩ | ⟨token, hmore, htoken, hsplit, hfull, hrest⟩ := hcases
    · refine ⟨[⟨q.columns, page.rows, page.more⟩], hall ▸ .single hlimit hle, ?_⟩
      intro fuel before hfuel
      obtain ⟨fuel, rfl⟩ : ∃ n, fuel = n + 1 := Nat.exists_eq_succ_of_ne_zero (by
        rw [List.length_singleton] at hfuel
        omega)
      rw [followPages, hquery]
      dsimp only
      rw [hmore]
      rfl
    · -- The token leaves fewer rows, so it is not the bound just used.
      have hshorter : (source.rows db.directory token r.last
          (db.snapshot q.definition r)).length < n := by
        rw [← hrows, hsplit, List.length_append]
        omega
      obtain ⟨pages, hpages, hrun⟩ := ih _ hshorter htoken rfl
      have hne : token ≠ first := by
        rintro rfl
        omega
      refine ⟨⟨q.columns, page.rows, page.more⟩ :: pages,
        hsplit ▸ hpages.cons hfull hlimit hrest, fun fuel before hfuel => ?_⟩
      obtain ⟨fuel, rfl⟩ : ∃ n, fuel = n + 1 := Nat.exists_eq_succ_of_ne_zero (by
        rw [List.length_cons] at hfuel
        omega)
      rw [List.length_cons] at hfuel ⊢
      have hlater := hrun fuel (before + 1) (by omega)
      rw [followPages, hquery]
      dsimp only
      rw [hmore]
      have hgoes : (true && decide (token ≠ (r.resume first).first)) = true :=
        decide_eq_true hne
      dsimp only
      rw [if_pos hgoes, show (r.resume first).resume token = r.resume token from rfl, hlater]
      simp only [Prod.mk.injEq, Except.ok.injEq, true_and]
      omega

/-- A page without room has the token that it started from. -/
theorem query_of_no_room (hq : db.queries.find r.query = .ok q)
    (hsource : db.rangeSource q = .ok source) (hfirst : source.layout.IsBound r.first)
    (hlast : source.layout.IsBound r.last) (hlimit : pageLimit q.definition r = 0) :
    db.query r = .ok ⟨q.columns, [], some r.first⟩ := by
  rw [query_eq hq hsource, RangeSource.page, Layout.checkBound_eq_ok.mpr hfirst,
    Layout.checkBound_eq_ok.mpr hlast]
  dsimp only [bind, Except.bind]
  rw [if_pos hlimit]
  rfl

/-- There is fuel for one page and for one page a row. -/
theorem max_one_le_pageBound (hq : db.queries.find r.query = .ok q)
    (hsource : db.rangeSource q = .ok source) (hready : source.Ready db.directory)
    (first last : Tuple) (block : UInt64) :
    max 1 (source.rows db.directory first last block).length ≤ db.pageBound r.query := by
  have hlength := hready.length_visible_le first last block
  rw [pageBound, hq, RangeSource.length_rows]
  dsimp only
  rw [hsource]
  dsimp only
  omega

theorem pageBound_pos (hq : db.queries.find r.query = .ok q)
    (hsource : db.rangeSource q = .ok source) (hready : source.Ready db.directory) :
    0 < db.pageBound r.query := by
  have hbound := max_one_le_pageBound hq hsource hready r.first r.last 0
  omega

/-- A run for all rows that asks for some follows the tokens. -/
theorem countPages_all (hasked : r.maxResults ≠ 0) :
    db.countPages r true = db.followPages true (db.pageBound r.query) 0 r := by
  rw [countPages, if_neg (by simpa using hasked)]

/-- A run for one page gives it. -/
theorem countPages_one {response : Response} (hresponse : db.query r = .ok response)
    (hbound : 0 < db.pageBound r.query) : db.countPages r false = ([response], .ok 1) := by
  obtain ⟨fuel, hfuel⟩ := Nat.exists_eq_succ_of_ne_zero (Nat.ne_of_gt hbound)
  rw [countPages, hfuel, Nat.succ_eq_add_one, followPages, hresponse]
  cases hmore : response.more <;> simp [hmore]

/-- A run for all rows that has room for some fills its pages, as soon as there
is fuel for them. -/
theorem exists_countPages (hq : db.queries.find r.query = .ok q)
    (hsource : db.rangeSource q = .ok source) (hready : source.Ready db.directory)
    (hfirst : source.layout.IsBound r.first) (hlast : source.layout.IsBound r.last)
    (hlimit : 0 < pageLimit q.definition r) :
    ∃ pages, PagesFill pages
        (source.rows db.directory r.first r.last (db.snapshot q.definition r))
        (pageLimit q.definition r) ∧
      db.countPages r true = (pages, .ok pages.length) ∧
      ∀ fuel, pages.length ≤ fuel → db.followPages true fuel 0 r = (pages, .ok pages.length) := by
  obtain ⟨pages, hpages, hrun⟩ := exists_followPages hq hsource hready hlast hlimit hfirst
  have hall : ∀ fuel, pages.length ≤ fuel →
      db.followPages true fuel 0 r = (pages, .ok pages.length) := fun fuel hfuel => by
    have hrest := hrun fuel 0 hfuel
    rwa [Nat.zero_add] at hrest
  have hasked : r.maxResults ≠ 0 := fun hnone => by
    rw [pageLimit, hnone, UInt32.toNat_min] at hlimit
    exact Nat.lt_irrefl 0 (Nat.lt_of_lt_of_le hlimit (Nat.min_le_left _ _))
  have hbound := max_one_le_pageBound hq hsource hready r.first r.last (db.snapshot q.definition r)
  refine ⟨pages, hpages, ?_, hall⟩
  rw [countPages_all hasked]
  exact hall _ (Nat.le_trans (hpages.length_le hlimit) hbound)

/-- A run for all rows of a query without room for one gives one page. -/
theorem countPages_of_no_room (hq : db.queries.find r.query = .ok q)
    (hsource : db.rangeSource q = .ok source) (hready : source.Ready db.directory)
    (hfirst : source.layout.IsBound r.first) (hlast : source.layout.IsBound r.last)
    (hasked : r.maxResults ≠ 0) (hlimit : pageLimit q.definition r = 0) :
    db.countPages r true = ([⟨q.columns, [], some r.first⟩], .ok 1) := by
  have hpositive := pageBound_pos hq hsource hready
  obtain ⟨fuel, hfuel⟩ := Nat.exists_eq_succ_of_ne_zero (Nat.ne_of_gt hpositive)
  rw [countPages_all hasked, hfuel, Nat.succ_eq_add_one, followPages,
    query_of_no_room hq hsource hfirst hlast hlimit]
  -- The token is the bound just used, where a run stops.
  simp

/-- Runs of a query give what was asked for, and end. After any calls that give no
two indexes one tree, a run for all rows fills its pages and counts them, as
soon as there is fuel for them. Where the query has no room for a row the run
gives one page, whose token is the bound that it started from. Where the request
asks for no row it gives none. A run for one page gives one. The rows are those of
the table, the index and the join that the definition of the query names in the
catalog, up to the block that is asked for or to the head block if the query is
limited to it. -/
theorem countPages_fill (calls : List DatabaseCall)
    (hsep : ((ofDirectory .empty).run calls).catalog.Separate) {r : Request} {q : PreparedQuery}
    (hq : ((ofDirectory .empty).run calls).queries.find r.query = .ok q) :
    let db := (ofDirectory .empty).run calls
    let limit := (min r.maxResults q.definition.maxResults).toNat
    let block := if q.definition.limitBlock then min r.maxBlock db.headBlock
      else 18446744073709551615
    ∃ source, db.rangeSource q = .ok source ∧ q.definition.Reads db.catalog source ∧
      (source.layout.checkBound r.first = .ok () → source.layout.checkBound r.last = .ok () →
        let rows := source.rows db.directory r.first r.last block
        (1 ≤ limit → ∃ pages, PagesFill pages rows limit ∧
          db.countPages r true = (pages, .ok pages.length) ∧
          ∀ fuel, pages.length ≤ fuel →
            db.followPages true fuel 0 r = (pages, .ok pages.length)) ∧
        (0 < r.maxResults → q.definition.maxResults = 0 →
          db.countPages r true = ([⟨q.columns, [], some r.first⟩], .ok 1)) ∧
        ∃ page, db.query r = .ok page ∧ db.countPages r false = ([page], .ok 1)) ∧
      (r.maxResults = 0 → db.countPages r true =
        ([], .error (.argument "--all needs --max-results above zero"))) := by
  intro db limit block
  have h : db.InOrder := inOrder_empty.run hsep
  obtain ⟨source, hsource, hready, hreads, -⟩ := h.exists_reads (prepared_empty.run calls) hq
  refine ⟨source, hsource, hreads, fun hfirst hlast => ?_, fun hnone => ?_⟩
  · have hfirst := Layout.checkBound_eq_ok.mp hfirst
    have hlast := Layout.checkBound_eq_ok.mp hlast
    refine ⟨exists_countPages hq hsource hready hfirst hlast, fun hrows hcap => ?_, ?_⟩
    · have hasked : r.maxResults ≠ 0 := fun hnone => UInt32.lt_irrefl _ (hnone ▸ hrows)
      refine countPages_of_no_room hq hsource hready hfirst hlast hasked ?_
      rw [pageLimit, hcap, UInt32.toNat_min]
      exact Nat.min_zero _
    · obtain ⟨page, hpage, -⟩ := hready.exists_answer hfirst hlast block limit
      have hresponse : db.query r = .ok ⟨q.columns, page.rows, page.more⟩ := by
        rw [query_eq hq hsource]
        exact congrArg (Except.map _) hpage
      exact ⟨_, hresponse, countPages_one hresponse (pageBound_pos hq hsource hready)⟩
  · rw [countPages, if_pos (by simpa using hnone)]

/-- Items are shown with the rank of their owner. Three of them fill two pages of
two rows. A fourth item and a new rank are of a block after the head and are not
shown. A query that is not limited to the head shows them. A query without room
gives its first bound back. -/
theorem sample_countPages_fill :
    let query (name : String) (limited : Bool) (rows : UInt32) : QueryDefinition :=
      ⟨name, "item_by_id", limited, rows, some ⟨"owner", ["owner"], [⟨"level", some "rank"⟩]⟩⟩
    let item (id : UInt64) (owner : String) (block : UInt64) : DatabaseCall :=
      .append "item" (.live [.uint64 id] block [.string owner])
    let owner (name : String) (block : UInt64) (level : UInt32) : DatabaseCall :=
      .append "owner" (.live [.string name] block [.uint32 level])
    let calls : List DatabaseCall :=
      [.load ⟨[⟨"item", [⟨"id", .uint64⟩, ⟨"owner", .string⟩], ["id"]⟩,
          ⟨"owner", [⟨"name", .string⟩, ⟨"level", .uint32⟩], ["name"]⟩],
        [⟨"item_by_id", "item", [.desc "id"]⟩],
        [query "items" true 2, query "all" false 9, query "nothing" true 0]⟩,
        owner "ann" 1 3, item 1 "ann" 3, item 2 "bob" 4, item 3 "ann" 5, item 4 "ann" 6,
        owner "ann" 7 8, .setHeadBlock 5]
    let db := (ofDirectory .empty).run calls
    let row (id : UInt64) (owner : String) (block : UInt64) (rank : UInt32) : Row :=
      ⟨block, true, [.uint64 id, .string owner, .uint32 rank]⟩
    let request (name : String) : Request := ⟨name, 9, [.uint64 8], [.uint64 1], 5⟩
    (∃ pages, PagesFill pages [row 3 "ann" 5 3, row 2 "bob" 4 0, row 1 "ann" 3 3] 2 ∧
      db.countPages (request "items") true = (pages, .ok 2)) ∧
    (∃ pages, PagesFill pages
        [row 4 "ann" 6 8, row 3 "ann" 5 8, row 2 "bob" 4 0, row 1 "ann" 3 8] 5 ∧
      db.countPages (request "all") true = (pages, .ok 1)) ∧
    db.countPages (request "nothing") true =
      ([⟨["id", "owner", "rank"], [], some [.uint64 8]⟩], .ok 1) := by
  intro query item owner calls db row request
  have hsep : db.catalog.Separate := Catalog.separate_of_indexes (by decide +kernel)
  let prepared (definition : QueryDefinition) : PreparedQuery :=
    ⟨definition, "item", ["id", "owner", "rank"],
      some ⟨"owner", [1], true, [⟨1, "rank", .uint32⟩]⟩⟩
  have hinstalled : db.queries.get? "items" = some (prepared (query "items" true 2)) ∧
      db.queries.get? "all" = some (prepared (query "all" false 9)) ∧
      db.queries.get? "nothing" = some (prepared (query "nothing" true 0)) := by
    decide +kernel
  obtain ⟨hitems, hall, hnothing⟩ := hinstalled
  have hfills : ∀ (definition : QueryDefinition) (rows : List Row),
      db.queries.get? definition.name = some (prepared definition) →
      1 ≤ (min 5 definition.maxResults).toNat →
      ((db.rangeSource (prepared definition)).toOption.all fun source =>
        decide (source.layout.IsBound [.uint64 8] ∧ source.layout.IsBound [.uint64 1] ∧
          source.rows db.directory [.uint64 8] [.uint64 1]
            (if definition.limitBlock then min 9 db.headBlock else 18446744073709551615) =
              rows)) = true →
      ∃ pages, PagesFill pages rows (min 5 definition.maxResults).toNat ∧
        db.countPages (request definition.name) true = (pages, .ok pages.length) := by
    intro definition rows hget hlimit hchecked
    obtain ⟨source, hsource, -, hruns, -⟩ :=
      countPages_fill calls hsep (r := request definition.name) (Registry.find_eq_ok.mpr hget)
    rw [hsource] at hchecked
    obtain ⟨hfirst, hlast, hrows⟩ := of_decide_eq_true hchecked
    obtain ⟨hall, -, -⟩ := hruns (Layout.checkBound_eq_ok.mpr hfirst)
      (Layout.checkBound_eq_ok.mpr hlast)
    obtain ⟨pages, hpages, hrun, -⟩ := hall hlimit
    exact ⟨pages, hrows ▸ hpages, hrun⟩
  refine ⟨?_, ?_, ?_⟩
  · obtain ⟨pages, hpages, hrun⟩ := hfills (query "items" true 2)
      [row 3 "ann" 5 3, row 2 "bob" 4 0, row 1 "ann" 3 3] hitems (by decide) (by decide +kernel)
    have hlength : pages.length = 2 := hpages.length_eq.trans (by decide)
    exact ⟨pages, hpages, hlength ▸ hrun⟩
  · obtain ⟨pages, hpages, hrun⟩ := hfills (query "all" false 9)
      [row 4 "ann" 6 8, row 3 "ann" 5 8, row 2 "bob" 4 0, row 1 "ann" 3 8] hall (by decide)
      (by decide +kernel)
    have hlength : pages.length = 1 := hpages.length_eq.trans (by decide)
    exact ⟨pages, hpages, hlength ▸ hrun⟩
  · obtain ⟨source, hsource, -, hruns, -⟩ :=
      countPages_fill calls hsep (r := request "nothing") (Registry.find_eq_ok.mpr hnothing)
    have hbounds : ((db.rangeSource (prepared (query "nothing" true 0))).toOption.all fun source =>
        decide (source.layout.IsBound [.uint64 8] ∧ source.layout.IsBound [.uint64 1])) = true := by
      decide +kernel
    rw [hsource] at hbounds
    obtain ⟨hfirst, hlast⟩ := of_decide_eq_true hbounds
    obtain ⟨-, hgives, -⟩ := hruns (Layout.checkBound_eq_ok.mpr hfirst)
      (Layout.checkBound_eq_ok.mpr hlast)
    exact hgives (by decide) rfl

end Database
end Chronicle
