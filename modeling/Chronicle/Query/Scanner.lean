import Chronicle.Storage.FactStore

/-!
# Scanning an index

A scanner walks the identities of an index between two places. It keeps only
the place it handed out last and seeks the index anew at every step, so the
index may grow between two steps. Each step leaves fewer places to visit.
-/

namespace Chronicle

/-- Whether a scan may find more. -/
inductive ScanState where
  /-- More places may lie within the range. -/
  | scanning
  /-- The range is consumed, for good. -/
  | exhausted
  deriving DecidableEq, Repr

/-- A scan of an index in progress. -/
structure Scanner where
  /-- The place handed out last, or the start of the range. -/
  cursor : Bytes
  /-- Whether the cursor itself is still to be handed out. -/
  inclusive : Bool
  /-- The end of the range. -/
  last : Bytes
  /-- Whether there may be more. -/
  state : ScanState
  deriving DecidableEq, Repr

namespace Scanner

/-- A scan of the places from `first` to `last`, both included. -/
def between (first last : Bytes) : Scanner :=
  ⟨first, true, last, if compare first last = .gt then .exhausted else .scanning⟩

/-- The lower end of what is to be visited. -/
def lower (s : Scanner) : SortedMap.Endpoint Bytes :=
  if s.inclusive then .including s.cursor else .excluding s.cursor

/-- What would be visited if the index stayed as it is. -/
def ahead (s : Scanner) (tree : IndexTree) : List IndexedKey :=
  match s.state with
  | .exhausted => []
  | .scanning => FactStore.scan tree s.lower (.including s.last)

/-- The next identity, without a step. -/
def peek (s : Scanner) (tree : IndexTree) : Option IndexedKey := (s.ahead tree).head?

/-- The next identity, and the scan after it. -/
def next (s : Scanner) (tree : IndexTree) : Option IndexedKey × Scanner :=
  match s.peek tree with
  | some key => (some key, { s with cursor := key.position, inclusive := false })
  | none => (none, { s with state := .exhausted })

/-- A step visits the first identity ahead and leaves the others ahead. -/
theorem ahead_next {s : Scanner} {tree : IndexTree} {key : IndexedKey} {s' : Scanner}
    (h : s.next tree = (some key, s')) : s.ahead tree = key :: s'.ahead tree := by
  rw [next, peek] at h
  cases hs : s.state with
  | exhausted => simp [ahead, hs] at h
  | scanning =>
    simp only [ahead, hs, FactStore.scan] at h ⊢
    cases hb : SortedMap.between tree s.lower (.including s.last) with
    | nil => simp [hb] at h
    | cons e rest =>
      simp only [hb, List.map_cons, List.head?_cons, Prod.mk.injEq, Option.some.injEq] at h
      obtain ⟨rfl, rfl⟩ := h
      have := SortedMap.between_tail hb
      simp [lower, this]

/-- A step without a result ends the scan. -/
theorem next_none {s : Scanner} {tree : IndexTree} {s' : Scanner}
    (h : s.next tree = (none, s')) : s' = { s with state := .exhausted } := by
  rw [next] at h
  split at h <;> simp_all

end Scanner
end Chronicle
