import Chronicle.Query.Join
import Chronicle.Query.Scanner

/-!
# Pages of a range

A range query walks an index between two bounds and shows each identity as of
a block, leaving out those without a version so far. It stops when a page is
full and names the next identity that would be shown, from which another page
can start.

A page is built in steps, each of which reads the database once: it seeks the
next place in the index, or the version of an identity in a table. On a
database at rest the steps come to an end, because a seek leaves fewer places
ahead.
-/

namespace Chronicle

/-- The rows of a page. -/
structure Page where
  /-- The rows, in index order. -/
  rows : List Row
  /-- The bound from which the next page starts, if there is one. -/
  more : Option Tuple
  /-- How many identities had no version to show. -/
  skipped : Nat
  deriving DecidableEq, Repr

/-- Whether the page is the last. -/
def Page.isComplete (p : Page) : Bool := p.more.isNone

/-- A join together with the store of its second table. -/
structure JoinSource where
  /-- The join. -/
  join : Join
  /-- The store of the second table. -/
  second : FactStore
  deriving DecidableEq

/-- Where ranges are read from. -/
structure RangeSource where
  /-- The store of the table. -/
  store : FactStore
  /-- The index that is walked. -/
  layout : Layout
  /-- What is added to each row. -/
  join : Option JoinSource
  deriving DecidableEq

/-- What a page in progress does next. -/
inductive PageStage where
  /-- Seek the next identity in the index. -/
  | seeking
  /-- See an identity as of the block. -/
  | found (identity : Tuple)
  /-- Add the joined values to a row. -/
  | joining (row : Row) (source : JoinSource)
  /-- Nothing, with the bound of the next page. -/
  | finished (more : Option Tuple)

/-- A page in progress. -/
structure PageProgress where
  /-- The scan of the index. -/
  scanner : Scanner
  /-- The rows so far. -/
  rows : List Row
  /-- How many identities had no version to show so far. -/
  skipped : Nat
  /-- What comes next. -/
  stage : PageStage

namespace PageProgress

/-- A page that starts at a place of the index. -/
def start (first last : Bytes) : PageProgress := ⟨.between first last, [], 0, .seeking⟩

/-- The page that is complete but for its rows' successor. -/
def toPage (p : PageProgress) (more : Option Tuple) : Page := ⟨p.rows, more, p.skipped⟩

/-- Leave out an identity. -/
def skip (p : PageProgress) : PageProgress :=
  { p with skipped := p.skipped + 1, stage := .seeking }

/-- Add a row. -/
def add (p : PageProgress) (row : Row) : PageProgress :=
  { p with rows := p.rows ++ [row], stage := .seeking }

/-- Show an identity, or prepare to join its row. -/
def showRow (p : PageProgress) (source : RangeSource) : Option Row → PageProgress
  | none => p.skip
  | some row =>
    match source.join with
    | none => p.add row
    | some join => { p with stage := .joining row join }

/-- Step over an identity after a full page, which ends at the first one that
could be shown. -/
def passOver (p : PageProgress) (source : RangeSource) (identity : Tuple) :
    Resolution → Except Error PageProgress
  | .absent => .ok p.skip
  | _ => (source.layout.boundOf identity).map fun bound =>
      { p with stage := .finished (some bound) }

/-- One step of a page of at most `limit` rows as of a block. -/
def step (source : RangeSource) (block : UInt64) (limit : Nat) (d : Directory)
    (p : PageProgress) : Except Error PageProgress :=
  match p.stage with
  | .finished _ => .ok p
  | .seeking =>
    match p.scanner.next (d.indexTree source.layout.treeName) with
    | (some key, scanner) => .ok { p with scanner, stage := .found key.identity }
    | (none, scanner) => .ok { p with scanner, stage := .finished none }
  | .found identity =>
    if p.rows.length < limit then
      (source.store.resolveRow d identity block).map (p.showRow source)
    else (source.store.resolve d identity block).bind (p.passOver source identity)
  | .joining row join =>
    (join.join.resolve join.second d row block).map fun joined =>
      p.add { row with values := row.values ++ joined }

/-- The steps that a stage may take before the next seek. -/
def PageStage.weight : PageStage → Nat
  | .finished _ => 0
  | .seeking => 1
  | .joining .. => 2
  | .found _ => 3

/-- A bound on the steps to come. -/
def work (p : PageProgress) (tree : IndexTree) : Nat :=
  3 * (p.scanner.ahead tree).length + PageStage.weight p.stage

/-- A page that is not finished has less work ahead after a step. -/
theorem work_step {source : RangeSource} {block : UInt64} {limit : Nat} {d : Directory}
    {p p' : PageProgress} (h : step source block limit d p = .ok p')
    (hp : ∀ more, p.stage ≠ .finished more) :
    p'.work (d.indexTree source.layout.treeName) < p.work (d.indexTree source.layout.treeName) := by
  unfold step at h
  split at h
  · exact absurd ‹_› (hp _)
  · rename_i hs
    split at h
    · rename_i key scanner hn
      have ha := Scanner.ahead_next hn
      cases h
      simp [work, PageStage.weight, hs, ha]
      omega
    · rename_i scanner hn
      cases h
      rw [Scanner.next_none hn]
      simp [work, PageStage.weight, hs, Scanner.ahead]
  · rename_i hs
    split at h
    · cases hr : source.store.resolveRow d ‹_› block with
      | error e => simp [hr, Except.map] at h
      | ok row =>
        simp only [hr, Except.map, Except.ok.injEq] at h
        subst h
        cases row with
        | none => simp [showRow, skip, work, PageStage.weight, hs]
        | some row =>
          cases hj : source.join <;> simp [showRow, hj, add, work, PageStage.weight, hs]
    · cases hr : source.store.resolve d ‹_› block with
      | error e => simp [hr, Except.bind] at h
      | ok seen =>
        simp only [hr, Except.bind] at h
        unfold passOver at h
        split at h
        · cases h
          simp [skip, work, PageStage.weight, hs]
        · cases hb : source.layout.boundOf ‹_› with
          | error e => simp [hb, Except.map] at h
          | ok bound =>
            simp only [hb, Except.map, Except.ok.injEq] at h
            subst h
            simp [work, PageStage.weight, hs]
  · rename_i row join hs
    cases hr : join.join.resolve join.second d row block with
    | error e => simp [hr, Except.map] at h
    | ok joined =>
      simp only [hr, Except.map, Except.ok.injEq] at h
      subst h
      simp [add, work, PageStage.weight, hs]

/-- All steps to the end of a page, on a database at rest. -/
def run (source : RangeSource) (block : UInt64) (limit : Nat) (d : Directory)
    (p : PageProgress) : Except Error Page :=
  match _hp : p.stage with
  | .finished more => .ok (p.toPage more)
  | .seeking | .found _ | .joining .. =>
    match _h : step source block limit d p with
    | .error e => .error e
    | .ok next => run source block limit d next
termination_by p.work (d.indexTree source.layout.treeName)
decreasing_by
  all_goals exact work_step _h (by simp [_hp])

end PageProgress

namespace RangeSource

/-- The page of at most `limit` rows from `first` to `last` as of a block. A
page without rows starts over at `first`. -/
def page (source : RangeSource) (d : Directory) (first last : Tuple) (block : UInt64)
    (limit : Nat) : Except Error Page := do
  source.layout.checkBound first
  source.layout.checkBound last
  if limit = 0 then return ⟨[], some first, 0⟩
  let lower ← source.layout.project first
  let upper ← source.layout.project last
  if source.layout.comparator.compare lower upper = .gt then return ⟨[], none, 0⟩
  PageProgress.run source block limit d
    (.start (source.layout.encode lower) (source.layout.encode upper))

/-- The rows of pages that follow each other, at most `fuel` of them. -/
def followPages (source : RangeSource) (d : Directory) (last : Tuple) (block : UInt64)
    (limit : Nat) : (fuel : Nat) → (first : Tuple) → Except Error (List Row)
  | 0, _ => .error (.fault .endless)
  | fuel + 1, first => do
    let page ← source.page d first last block limit
    match page.more with
    | none => return page.rows
    | some next => return page.rows ++ (← followPages source d last block limit fuel next)

/-- All rows from `first` to `last` as of a block, read in pages. A page is
determined by its first bound, which is the given one or that of an identity
in the index. So pages that come to an end are at most one more than those
identities. -/
def allRows (source : RangeSource) (d : Directory) (first last : Tuple) (block : UInt64)
    (limit : Nat) : Except Error (List Row) :=
  if limit = 0 then .error Violation.pageSize
  else source.followPages d last block limit
    ((d.indexTree source.layout.treeName).size + 1) first

end RangeSource
end Chronicle
