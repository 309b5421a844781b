import Chronicle.Proofs.Pages

/-!
# Outlooks

The outlook of a page in progress is what the page is going to show if nothing
else happens. Each step of the page keeps it, and a finished page shows it. It
is told by what the page reads about the identities ahead, so identities that
have nothing to show as of the block may come and go.
-/

namespace Chronicle

open FactStore

namespace RangeSource

variable {source : RangeSource} {d d' : Directory} {block : UInt64} {limit : Nat} {i : Tuple}

/-- What is shown of the identities ahead, after the rows so far. -/
def showAll (source : RangeSource) (d : Directory) (block : UInt64) (limit : Nat) :
    List Tuple → List Row → Except Error (List Row × Option Tuple)
  | [], rows => .ok (rows, none)
  | i :: ids, rows =>
    if rows.length < limit then
      (source.rowAt d block i).bind fun seen =>
        source.showAll d block limit ids (rows ++ seen.toList)
    else (source.store.resolve d i block).bind fun
      | .absent => source.showAll d block limit ids rows
      | _ => (source.layout.boundOf i).map fun bound => (rows, some bound)

/-- Whether an identity has nothing to show as of a block. -/
def hides (source : RangeSource) (d : Directory) (block : UInt64) (i : Tuple) : Bool :=
  match source.store.resolve d i block with
  | .ok .absent => true
  | _ => false

theorem resolve_of_hides (h : source.hides d block i = true) :
    source.store.resolve d i block = .ok .absent := by
  rw [hides] at h
  split at h
  · assumption
  · cases h

theorem hides_of_versionAt (h : source.store.versionAt d i block = .ok none) :
    source.hides d block i = true := by
  rw [hides, resolve, h]
  rfl

theorem rowAt_of_hides (h : source.hides d block i = true) :
    source.rowAt d block i = .ok none := by
  rw [rowAt, resolveRow, resolve_of_hides h]
  rfl

/-- Identities that have nothing to show may be left out. -/
theorem showAll_filter (ids : List Tuple) (rows : List Row) :
    source.showAll d block limit (ids.filter fun i => !source.hides d block i) rows =
      source.showAll d block limit ids rows := by
  induction ids generalizing rows with
  | nil => rfl
  | cons i ids ih =>
    cases hi : source.hides d block i with
    | true =>
      rw [List.filter_cons_of_neg (by simp [hi]), ih, showAll, rowAt_of_hides hi,
        resolve_of_hides hi]
      simp [Except.bind]
    | false =>
      rw [List.filter_cons_of_pos (by simp [hi]), showAll, showAll]
      simp only [ih]

/-- Whether the stores that a source reads see the same versions as of a block
in two directories. -/
structure ReadsAlike (source : RangeSource) (block : UInt64) (d d' : Directory) : Prop where
  /-- The versions of the table are the same. -/
  first : ∀ i, source.store.versionAt d' i block = source.store.versionAt d i block
  /-- The versions of the joined table are the same. -/
  second : ∀ join, source.join = some join → ∀ i,
    join.second.versionAt d' i block = join.second.versionAt d i block

/-- Whether the stores that a source reads see the same versions as of two blocks
of two directories. -/
structure SeesAlike (source : RangeSource) (d : Directory) (m : UInt64) (d' : Directory)
    (m' : UInt64) : Prop where
  /-- The versions of the table are the same. -/
  first : ∀ i, source.store.versionAt d' i m' = source.store.versionAt d i m
  /-- The versions of the joined table are the same. -/
  second : ∀ join, source.join = some join → ∀ i,
    join.second.versionAt d' i m' = join.second.versionAt d i m

theorem ReadsAlike.seesAlike (h : source.ReadsAlike block d d') :
    source.SeesAlike d block d' block := ⟨h.first, h.second⟩

namespace SeesAlike

variable {m m' : UInt64}

theorem resolve_eq (h : source.SeesAlike d m d' m') (i : Tuple) :
    source.store.resolve d' i m' = source.store.resolve d i m := by
  rw [resolve, resolve, h.first]

theorem resolveRow_eq (h : source.SeesAlike d m d' m') (i : Tuple) :
    source.store.resolveRow d' i m' = source.store.resolveRow d i m := by
  rw [resolveRow, resolveRow, h.resolve_eq]

theorem join_eq (h : source.SeesAlike d m d' m') {join : JoinSource}
    (hj : source.join = some join) (row : Row) :
    join.join.resolve join.second d' row m' = join.join.resolve join.second d row m := by
  have hrow : ∀ i, join.second.resolveRow d' i m' = join.second.resolveRow d i m := by
    intro i
    rw [resolveRow, resolveRow, resolve, resolve, h.second join hj]
  rw [Join.resolve, Join.resolve]
  simp only [hrow]

theorem rowAt_eq (h : source.SeesAlike d m d' m') (i : Tuple) :
    source.rowAt d' m' i = source.rowAt d m i := by
  rw [rowAt, rowAt, h.resolveRow_eq]
  cases hj : source.join with
  | none => rfl
  | some join => simp only [h.join_eq hj]

theorem showAll_eq (h : source.SeesAlike d m d' m') (ids : List Tuple) (rows : List Row) :
    source.showAll d' m' limit ids rows = source.showAll d m limit ids rows := by
  induction ids generalizing rows with
  | nil => rfl
  | cons i ids ih =>
    rw [showAll, showAll, h.rowAt_eq, h.resolve_eq]
    simp only [ih]

end SeesAlike

/-- A row that is shown is that of an identity. -/
theorem mem_showAll {ids : List Tuple} {rows : List Row} {shown : List Row × Option Tuple}
    (h : source.showAll d block limit ids rows = .ok shown) {row : Row} (hrow : row ∈ shown.1) :
    row ∈ rows ∨ ∃ i, source.rowAt d block i = .ok (some row) := by
  induction ids generalizing rows with
  | nil =>
    cases h
    exact .inl hrow
  | cons i ids ih =>
    rw [showAll] at h
    split at h
    · cases hseen : source.rowAt d block i with
      | error e => simp [hseen, Except.bind] at h
      | ok seen =>
        rw [hseen] at h
        obtain hmem | hlater := ih h
        · obtain hmem | hmem := List.mem_append.mp hmem
          · exact .inl hmem
          · exact .inr ⟨i, Option.mem_toList.mp hmem ▸ hseen⟩
        · exact .inr hlater
    · cases hseen : source.store.resolve d i block with
      | error e => simp [hseen, Except.bind] at h
      | ok seen =>
        rw [hseen] at h
        dsimp only [Except.bind] at h
        split at h
        · exact ih h
        · cases hbound : source.layout.boundOf i with
          | error e => simp [hbound, Except.map] at h
          | ok bound =>
            simp only [hbound, Except.map, Except.ok.injEq] at h
            subst h
            exact .inl hrow

end RangeSource

namespace PageProgress

variable {source : RangeSource} {d d' : Directory} {block : UInt64} {limit : Nat}
  {p : PageProgress}

/-- The identities ahead of a page in progress. -/
def ahead (p : PageProgress) (tree : IndexTree) : List Tuple :=
  (p.scanner.ahead tree).map (·.identity)

/-- What a page in progress is going to show on a database at rest. -/
def outlook (source : RangeSource) (block : UInt64) (limit : Nat) (d : Directory)
    (p : PageProgress) : Except Error (List Row × Option Tuple) :=
  let ids := p.ahead (d.indexTree source.layout.treeName)
  match p.stage with
  | .finished more => .ok (p.rows, more)
  | .seeking => source.showAll d block limit ids p.rows
  | .found i => source.showAll d block limit (i :: ids) p.rows
  | .joining row join =>
    (join.join.resolve join.second d row block).bind fun joined =>
      source.showAll d block limit ids (p.rows ++ [{ row with values := row.values ++ joined }])

/-- Seeking finds the first identity ahead, or that there is none. -/
theorem outlook_seeking (scanner : Scanner) (rows : List Row) (skipped : Nat) :
    outlook source block limit d ⟨scanner, rows, skipped, .seeking⟩ =
      (step source block limit d ⟨scanner, rows, skipped, .seeking⟩).bind
        (outlook source block limit d) := by
  cases hnext : scanner.next (d.indexTree source.layout.treeName) with
  | mk found after =>
    cases found with
    | some key =>
      have hahead := Scanner.ahead_next hnext
      simp only [step, hnext, Except.bind, outlook, ahead, hahead, List.map_cons]
    | none =>
      have hahead : scanner.ahead (d.indexTree source.layout.treeName) = [] := by
        rw [Scanner.next, Scanner.peek] at hnext
        cases hkeys : scanner.ahead (d.indexTree source.layout.treeName) with
        | nil => rfl
        | cons key keys => simp [hkeys] at hnext
      simp only [step, hnext, Except.bind, outlook, ahead, hahead, List.map_nil,
        RangeSource.showAll]

/-- A found identity is shown, joined, left out or named as the next one. -/
theorem outlook_found (scanner : Scanner) (rows : List Row) (skipped : Nat) (i : Tuple) :
    outlook source block limit d ⟨scanner, rows, skipped, .found i⟩ =
      (step source block limit d ⟨scanner, rows, skipped, .found i⟩).bind
        (outlook source block limit d) := by
  simp only [outlook, RangeSource.showAll, step]
  by_cases hroom : rows.length < limit
  · rw [if_pos hroom, if_pos hroom, RangeSource.rowAt]
    cases hrow : source.store.resolveRow d i block with
    | error e => rfl
    | ok seen =>
      cases seen with
      | none =>
        simp [bind, Except.bind, pure, Except.pure, Except.map, showRow, skip, outlook, ahead]
      | some row =>
        cases hj : source.join with
        | none =>
          simp [bind, Except.bind, pure, Except.pure, Except.map, showRow, hj, add, outlook, ahead]
        | some join =>
          simp only [bind, Except.bind, pure, Except.pure, Except.map, showRow, hj, outlook, ahead]
          cases join.join.resolve join.second d row block <;> rfl
  · rw [if_neg hroom, if_neg hroom]
    cases hresolve : source.store.resolve d i block with
    | error e => rfl
    | ok r =>
      cases r with
      | absent => simp [Except.bind, passOver, skip, outlook, ahead]
      | tombstone b =>
        simp only [Except.bind, passOver]
        cases source.layout.boundOf i <;> rfl
      | live v =>
        simp only [Except.bind, passOver]
        cases source.layout.boundOf i <;> rfl

/-- A step of a page keeps its outlook. -/
theorem outlook_step : p.outlook source block limit d =
    (step source block limit d p).bind (outlook source block limit d) := by
  obtain ⟨scanner, rows, skipped, stage⟩ := p
  cases stage with
  | seeking => exact outlook_seeking scanner rows skipped
  | found i => exact outlook_found scanner rows skipped i
  | joining row join =>
    simp only [outlook, step]
    cases join.join.resolve join.second d row block <;> rfl
  | finished more => rfl

/-- On a database at rest a page shows its outlook. -/
theorem run_shown : (run source block limit d p).map Page.shown =
    p.outlook source block limit d := by
  fun_induction run source block limit d p with
  | case1 p more hp => simp only [outlook, hp, toPage, Page.shown, Except.map]
  | case2 p hp e hstep | case4 p i hp e hstep | case6 p row join hp e hstep =>
    rw [outlook_step, hstep]
    rfl
  | case3 p hp next hstep ih | case5 p i hp next hstep ih | case7 p row join hp next hstep ih =>
    rw [outlook_step, hstep]
    exact ih

/-- The identities ahead that have something to show are the same in trees that
differ in other identities. -/
theorem filter_ahead {tree tree' : IndexTree} {hides : Tuple → Bool}
    (htree : ∀ e : Bytes × Tuple, hides e.2 = false → (e ∈ tree'.entries ↔ e ∈ tree.entries))
    (p : PageProgress) :
    (p.ahead tree').filter (fun i => !hides i) = (p.ahead tree).filter fun i => !hides i := by
  have hbetween : ∀ lower upper : SortedMap.Endpoint Bytes,
      (tree'.between lower upper).filter (fun e => !hides e.2) =
        (tree.between lower upper).filter fun e => !hides e.2 := fun lower upper =>
    SortedMap.eq_of_ascending_of_mem_iff ((SortedMap.pairwise_between ..).filter _)
      ((SortedMap.pairwise_between ..).filter _) fun e => by
        simp only [List.mem_filter, SortedMap.mem_between, Bool.not_eq_true']
        exact and_congr_left fun hshown => and_congr_left fun _ => htree e hshown
  rw [ahead, ahead, Scanner.ahead, Scanner.ahead]
  cases p.scanner.state with
  | exhausted => rfl
  | scanning =>
    have hscan := congrArg (List.map Prod.snd)
      (hbetween p.scanner.lower (.including p.scanner.last))
    simpa [scan, List.filter_map, Function.comp_def] using hscan

/-- A page in progress has the same outlook where the same versions are seen,
and where the index differs in identities that have nothing to show. -/
theorem outlook_congr {m m' : UInt64} (hsees : source.SeesAlike d m d' m')
    (htree : ∀ e : Bytes × Tuple, source.hides d m e.2 = false →
      (e ∈ (d'.indexTree source.layout.treeName).entries ↔
        e ∈ (d.indexTree source.layout.treeName).entries))
    (hjoin : ∀ row join, p.stage = .joining row join → source.join = some join) :
    p.outlook source m' limit d' = p.outlook source m limit d := by
  have hahead := filter_ahead htree p
  have hshow : ∀ {ids ids' : List Tuple} (rows : List Row),
      (ids'.filter fun i => !source.hides d m i) = (ids.filter fun i => !source.hides d m i) →
      source.showAll d' m' limit ids' rows = source.showAll d m limit ids rows := by
    intro ids ids' rows hids
    rw [hsees.showAll_eq, ← RangeSource.showAll_filter ids', hids, RangeSource.showAll_filter]
  rw [outlook, outlook]
  cases hp : p.stage with
  | finished more => rfl
  | seeking => exact hshow p.rows hahead
  | found i => exact hshow p.rows (by rw [List.filter_cons, List.filter_cons, hahead])
  | joining row join =>
    dsimp only
    rw [hsees.join_eq (hjoin row join hp)]
    exact congrArg _ (funext fun joined => hshow _ hahead)

end PageProgress

namespace RangeSource

variable {source : RangeSource} {first last : Tuple} {limit : Nat}

/-- A page before its first step. Malformed bounds are refused, and a page that
has no room or no range is finished. -/
def startPage (source : RangeSource) (first last : Tuple) (limit : Nat) :
    Except Error PageProgress := do
  source.layout.checkBound first
  source.layout.checkBound last
  if limit = 0 then return { PageProgress.start [] [] with stage := .finished (some first) }
  let lower ← source.layout.project first
  let upper ← source.layout.project last
  if source.layout.comparator.compare lower upper = .gt then
    return { PageProgress.start [] [] with stage := .finished none }
  return .start (source.layout.encode lower) (source.layout.encode upper)

/-- A page before its first step has no row to join. -/
theorem stage_startPage {p : PageProgress}
    (h : source.startPage first last limit = .ok p) (row : Row) (join : JoinSource) :
    p.stage ≠ .joining row join := by
  intro hp
  dsimp only [startPage, bind, Except.bind, pure, Except.pure] at h
  repeat' split at h
  all_goals
    cases h
    try cases hp

/-- A page before its first step has no rows. -/
theorem rows_startPage {p : PageProgress}
    (h : source.startPage first last limit = .ok p) : p.rows = [] := by
  dsimp only [startPage, bind, Except.bind, pure, Except.pure] at h
  repeat' split at h
  all_goals cases h
  all_goals rfl

/-- A page is what the steps make of its start. -/
theorem page_eq_run (source : RangeSource) (d : Directory) (first last : Tuple) (block : UInt64)
    (limit : Nat) : source.page d first last block limit =
      (source.startPage first last limit).bind (PageProgress.run source block limit d) := by
  have hfinished : ∀ more, PageProgress.run source block limit d
      { PageProgress.start [] [] with stage := .finished more } = .ok ⟨[], more, 0⟩ := by
    intro more
    rw [PageProgress.run]
    rfl
  rw [page, startPage]
  dsimp only [bind, Except.bind, pure, Except.pure]
  cases source.layout.checkBound first with
  | error e => rfl
  | ok _ =>
    cases source.layout.checkBound last with
    | error e => rfl
    | ok _ =>
      dsimp only
      by_cases hlimit : limit = 0
      · rw [if_pos hlimit, if_pos hlimit]
        exact (hfinished _).symm
      · rw [if_neg hlimit, if_neg hlimit]
        cases source.layout.project first with
        | error e => rfl
        | ok lower =>
          cases source.layout.project last with
          | error e => rfl
          | ok upper =>
            dsimp only
            split
            · exact (hfinished _).symm
            · rfl

/-- A page shows the outlook of its start. -/
theorem page_shown (source : RangeSource) (d : Directory) (first last : Tuple) (block : UInt64)
    (limit : Nat) : (source.page d first last block limit).map Page.shown =
      (source.startPage first last limit).bind (PageProgress.outlook source block limit d) := by
  rw [page_eq_run]
  cases source.startPage first last limit with
  | error e => rfl
  | ok p => exact PageProgress.run_shown

/-- A page shows the same as of two blocks that see the same versions. -/
theorem SeesAlike.page_shown_eq {d : Directory} {m m' : UInt64} (h : source.SeesAlike d m d m')
    (first last : Tuple) (limit : Nat) :
    (source.page d first last m' limit).map Page.shown =
      (source.page d first last m limit).map Page.shown := by
  rw [page_shown, page_shown]
  cases hp : source.startPage first last limit with
  | error e => rfl
  | ok p =>
    exact PageProgress.outlook_congr h (fun _ _ => Iff.rfl) fun row join hstage =>
      absurd hstage (stage_startPage hp row join)

/-- A row of a page is that of an identity. -/
theorem rowAt_of_mem_page {d : Directory} {block : UInt64} {page : Page}
    (h : source.page d first last block limit = .ok page) {row : Row} (hrow : row ∈ page.rows) :
    ∃ i, source.rowAt d block i = .ok (some row) := by
  have hshown := source.page_shown d first last block limit
  rw [h] at hshown
  cases hp : source.startPage first last limit with
  | error e => simp [hp, Except.map, Except.bind] at hshown
  | ok p =>
    have houtlook : p.outlook source block limit d = .ok page.shown := by
      rw [hp] at hshown
      exact hshown.symm
    have hshows : ∀ ids, source.showAll d block limit ids p.rows = .ok page.shown →
        ∃ i, source.rowAt d block i = .ok (some row) := fun ids hids =>
      (mem_showAll hids hrow).resolve_left (by simp [rows_startPage hp])
    rw [PageProgress.outlook] at houtlook
    cases hstage : p.stage with
    | finished more =>
      simp only [hstage, Except.ok.injEq] at houtlook
      have hrows : p.rows = page.rows := congrArg Prod.fst houtlook
      rw [← hrows, rows_startPage hp] at hrow
      cases hrow
    | seeking =>
      simp only [hstage] at houtlook
      exact hshows _ houtlook
    | found i =>
      simp only [hstage] at houtlook
      exact hshows _ houtlook
    | joining row join => exact absurd hstage (stage_startPage hp row join)

end RangeSource
end Chronicle
