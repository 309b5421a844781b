import Chronicle.Query.Page

/-!
# Pages of a list of candidates

A page of a list of candidates shows those that have a row, up to a limit, and
names the first one that it had no room for. A run over an index at rest gives
the page of the identities ahead of its scanner. The induction is on these
identities, and each round of steps consumes one.
-/

namespace Chronicle

namespace Page

/-- What a page shows, without what it skipped. -/
def shown (p : Page) : List Row × Option Tuple := (p.rows, p.more)

/-- The page of at most `limit` rows of some candidates. -/
def ofCandidates (see : Tuple → Option Row) (bound : Tuple → Tuple) (limit : Nat)
    (candidates : List Tuple) : Page :=
  let shown := candidates.filter fun i => (see i).isSome
  { rows := (shown.take limit).filterMap see
    more := shown[limit]?.map bound
    skipped := (candidates.takeWhile fun i => some i ≠ shown[limit]?).countP
      fun i => (see i).isNone }

variable {see : Tuple → Option Row} {bound : Tuple → Tuple} {limit : Nat} {i : Tuple}
  {candidates : List Tuple}

/-- A candidate without a row is counted and left out. -/
theorem ofCandidates_cons_of_none (h : see i = none) :
    ofCandidates see bound limit (i :: candidates) =
      let rest := ofCandidates see bound limit candidates
      ⟨rest.rows, rest.more, rest.skipped + 1⟩ := by
  have hfilter : (i :: candidates).filter (fun i => (see i).isSome) =
      candidates.filter fun i => (see i).isSome :=
    List.filter_cons_of_neg (by simp [h])
  have hnext : some i ≠ (candidates.filter fun i => (see i).isSome)[limit]? := fun he => by
    have hmem := List.mem_of_getElem? he.symm
    simp [h] at hmem
  simp only [ofCandidates, hfilter]
  rw [List.takeWhile_cons_of_pos (by simpa using hnext), List.countP_cons_of_pos (by simp [h])]

/-- A candidate with a row takes one of the places. -/
theorem ofCandidates_cons_of_some {row : Row} (h : see i = some row) (hi : i ∉ candidates) :
    ofCandidates see bound (limit + 1) (i :: candidates) =
      let rest := ofCandidates see bound limit candidates
      ⟨row :: rest.rows, rest.more, rest.skipped⟩ := by
  have hfilter : (i :: candidates).filter (fun i => (see i).isSome) =
      i :: candidates.filter fun i => (see i).isSome :=
    List.filter_cons_of_pos (by simp [h])
  have hnext : some i ≠ (candidates.filter fun i => (see i).isSome)[limit]? := fun he =>
    hi (List.mem_filter.mp (List.mem_of_getElem? he.symm)).1
  simp only [ofCandidates, hfilter, List.take_succ_cons, List.getElem?_cons_succ,
    List.filterMap_cons_some h]
  rw [List.takeWhile_cons_of_pos (by simpa using hnext), List.countP_cons_of_neg (by simp [h])]

/-- A full page ends at the first candidate with a row. -/
theorem ofCandidates_zero_cons_of_some {row : Row} (h : see i = some row) :
    ofCandidates see bound 0 (i :: candidates) = ⟨[], some (bound i), 0⟩ := by
  simp [ofCandidates, h]

@[simp] theorem ofCandidates_nil : ofCandidates see bound limit [] = ⟨[], none, 0⟩ := by
  simp [ofCandidates]

end Page

namespace RangeSource

/-- The row of an identity as a page shows it, with the joined values. -/
def rowAt (source : RangeSource) (d : Directory) (block : UInt64) (identity : Tuple) :
    Except Error (Option Row) := do
  match ← source.store.resolveRow d identity block with
  | none => return none
  | some row =>
    match source.join with
    | none => return some row
    | some join =>
      let joined ← join.join.resolve join.second d row block
      return some { row with values := row.values ++ joined }

variable {source : RangeSource} {d : Directory} {block : UInt64} {i : Tuple}

/-- Only an absent identity has no row. -/
theorem eq_none_iff_of_toRow {t : Table} {r : Resolution} {seen : Option Row}
    (h : r.toRow t i = .ok seen) : seen = none ↔ r = .absent := by
  have ne_none {values : Except Error Tuple} {row : Tuple → Row}
      (h : values.map (fun v => some (row v)) = .ok seen) : seen ≠ none := by
    cases values with
    | error e => cases h
    | ok v =>
      cases h
      simp
  cases r with
  | absent =>
    cases h
    simp
  | tombstone b => simp [ne_none h]
  | live v => simp [ne_none h]

/-- An identity is resolved before its row is built, and has a row unless it is
absent. -/
theorem resolve_of_resolveRow {store : FactStore} {seen : Option Row}
    (h : store.resolveRow d i block = .ok seen) :
    ∃ r, store.resolve d i block = .ok r ∧ (seen = none ↔ r = .absent) := by
  rw [FactStore.resolveRow] at h
  cases hr : store.resolve d i block with
  | error e => simp [hr, bind, Except.bind] at h
  | ok r =>
    rw [hr] at h
    exact ⟨r, rfl, eq_none_iff_of_toRow h⟩

/-- An identity that is not shown is absent. -/
theorem resolve_of_rowAt_none (h : source.rowAt d block i = .ok none) :
    source.store.resolveRow d i block = .ok none ∧
      source.store.resolve d i block = .ok .absent := by
  rw [rowAt] at h
  cases hrow : source.store.resolveRow d i block with
  | error e => simp [hrow, bind, Except.bind] at h
  | ok seen =>
    cases seen with
    | none =>
      obtain ⟨r, hr, hiff⟩ := resolve_of_resolveRow hrow
      rw [hiff.mp rfl] at hr
      exact ⟨rfl, hr⟩
    | some row =>
      simp only [hrow, bind, Except.bind, pure, Except.pure] at h
      cases hj : source.join with
      | none => simp [hj] at h
      | some join =>
        simp only [hj] at h
        cases hv : join.join.resolve join.second d row block <;> simp [hv] at h

/-- An identity that is shown is not absent, and its row is that of the table
with the joined values added. -/
theorem resolve_of_rowAt_some {row : Row} (h : source.rowAt d block i = .ok (some row)) :
    (∃ r, source.store.resolve d i block = .ok r ∧ r ≠ .absent) ∧
      ∃ plain, source.store.resolveRow d i block = .ok (some plain) ∧
        match source.join with
        | none => row = plain
        | some join => ∃ joined, join.join.resolve join.second d plain block = .ok joined ∧
            row = { plain with values := plain.values ++ joined } := by
  rw [rowAt] at h
  cases hrow : source.store.resolveRow d i block with
  | error e => simp [hrow, bind, Except.bind] at h
  | ok seen =>
    cases seen with
    | none => simp [hrow, bind, Except.bind, pure, Except.pure] at h
    | some plain =>
      obtain ⟨r, hr, hiff⟩ := resolve_of_resolveRow hrow
      refine ⟨⟨r, hr, fun he => by simp [he] at hiff⟩, plain, rfl, ?_⟩
      simp only [hrow, bind, Except.bind, pure, Except.pure] at h
      cases hj : source.join with
      | none =>
        simp only [hj, Except.ok.injEq, Option.some.injEq] at h
        exact h.symm
      | some join =>
        simp only [hj] at h
        cases hv : join.join.resolve join.second d plain block with
        | error e => simp [hv] at h
        | ok joined =>
          simp only [hv, Except.ok.injEq, Option.some.injEq] at h
          exact ⟨joined, hv, h.symm⟩

end RangeSource

namespace PageProgress

variable {source : RangeSource} {d : Directory} {block : UInt64} {limit : Nat} {p : PageProgress}

/-- A finished page is complete. -/
theorem run_finished {more : Option Tuple} (hp : p.stage = .finished more) :
    run source block limit d p = .ok (p.toPage more) := by
  rw [run]
  split <;> simp_all

/-- A page that is not finished goes on from its next step, or fails there. -/
theorem run_eq_bind_step (hp : ∀ more, p.stage ≠ .finished more) :
    run source block limit d p =
      (step source block limit d p).bind (run source block limit d) := by
  rw [run]
  split
  · rename_i more hmore
    exact absurd hmore (hp more)
  all_goals
    split
    · rename_i e he
      rw [he]
      rfl
    · rename_i next hnext
      rw [hnext]
      rfl

theorem run_step {next : PageProgress} (hp : ∀ more, p.stage ≠ .finished more)
    (h : step source block limit d p = .ok next) :
    run source block limit d p = run source block limit d next := by
  rw [run_eq_bind_step hp, h]
  rfl

/-- A page with the rows so far before those of another. -/
def followedBy (p : PageProgress) (rest : Page) : Page :=
  ⟨p.rows ++ rest.rows, rest.more, p.skipped + rest.skipped⟩

/-- A found identity without a row is left out. -/
theorem run_found_of_none {i : Tuple} (hp : p.stage = .found i)
    (hi : source.rowAt d block i = .ok none) :
    run source block limit d p = run source block limit d p.skip := by
  obtain ⟨hrow, hresolve⟩ := RangeSource.resolve_of_rowAt_none hi
  refine run_step (by simp [hp]) ?_
  simp only [step, hp]
  split
  · rw [hrow]
    rfl
  · rw [hresolve]
    rfl

/-- A found identity with a row is added while there is room. -/
theorem run_found_of_some {i : Tuple} {row : Row} (hp : p.stage = .found i)
    (hi : source.rowAt d block i = .ok (some row)) (hroom : p.rows.length < limit) :
    run source block limit d p = run source block limit d (p.add row) := by
  obtain ⟨-, plain, hplain, hjoin⟩ := RangeSource.resolve_of_rowAt_some hi
  have hstep : step source block limit d p = .ok (p.showRow source (some plain)) := by
    simp only [step, hp, if_pos hroom, hplain]
    rfl
  rw [run_step (by simp [hp]) hstep]
  cases hj : source.join with
  | none =>
    simp only [hj] at hjoin
    simp only [showRow, hj, hjoin]
  | some join =>
    simp only [hj] at hjoin
    obtain ⟨joined, hjoined, rfl⟩ := hjoin
    simp only [showRow, hj]
    refine run_step (by simp) ?_
    simp only [step, hjoined]
    rfl

/-- A full page is finished by the next identity with a row. -/
theorem run_found_of_full {i bound : Tuple} {row : Row} (hp : p.stage = .found i)
    (hi : source.rowAt d block i = .ok (some row)) (hbound : source.layout.boundOf i = .ok bound)
    (hfull : ¬p.rows.length < limit) :
    run source block limit d p = .ok ⟨p.rows, some bound, p.skipped⟩ := by
  obtain ⟨⟨r, hr, hne⟩, -⟩ := RangeSource.resolve_of_rowAt_some hi
  have hstep : step source block limit d p =
      .ok { p with stage := .finished (some bound) } := by
    simp only [step, hp, if_neg hfull, hr]
    cases r with
    | absent => exact absurd rfl hne
    | tombstone b => simp [Except.bind, passOver, hbound, Except.map]
    | live v => simp [Except.bind, passOver, hbound, Except.map]
  rw [run_step (by simp [hp]) hstep]
  exact run_finished rfl

/-- The next identity ahead is found, and the others stay ahead. -/
theorem exists_step_found {i : Tuple} {ids : List Tuple} (hp : p.stage = .seeking)
    (hahead : (p.scanner.ahead (d.indexTree source.layout.treeName)).map (·.identity) = i :: ids) :
    ∃ scanner : Scanner,
      step source block limit d p = .ok ⟨scanner, p.rows, p.skipped, .found i⟩ ∧
        (scanner.ahead (d.indexTree source.layout.treeName)).map (·.identity) = ids := by
  obtain ⟨key, rest, hkeys, rfl, rfl⟩ := List.map_eq_cons_iff.mp hahead
  have hpeek : p.scanner.peek (d.indexTree source.layout.treeName) = some key := by
    rw [Scanner.peek, hkeys, List.head?_cons]
  have hnext : p.scanner.next (d.indexTree source.layout.treeName) =
      (some key, { p.scanner with cursor := key.position, inclusive := false }) := by
    rw [Scanner.next, hpeek]
  have htail := Scanner.ahead_next hnext
  rw [hkeys, List.cons.injEq] at htail
  refine ⟨{ p.scanner with cursor := key.position, inclusive := false }, ?_, ?_⟩
  · simp only [step, hp, hnext]
  · rw [← htail.2]

/-- Without an identity ahead the page is complete. -/
theorem run_of_nothing_ahead (hp : p.stage = .seeking)
    (hahead : p.scanner.ahead (d.indexTree source.layout.treeName) = []) :
    run source block limit d p = .ok (p.toPage none) := by
  have hpeek : p.scanner.peek (d.indexTree source.layout.treeName) = none := by
    rw [Scanner.peek, hahead, List.head?_nil]
  have hstep : step source block limit d p =
      .ok ⟨{ p.scanner with state := .exhausted }, p.rows, p.skipped, .finished none⟩ := by
    simp only [step, hp, Scanner.next, hpeek]
  rw [run_step (by simp [hp]) hstep]
  exact run_finished rfl

/-- A run shows the identities ahead of its scanner. -/
theorem run_seeking {see : Tuple → Option Row} {bound : Tuple → Tuple} {ids : List Tuple}
    (hp : p.stage = .seeking) (hroom : p.rows.length ≤ limit)
    (hahead : (p.scanner.ahead (d.indexTree source.layout.treeName)).map (·.identity) = ids)
    (hnodup : ids.Nodup)
    (hsee : ∀ i ∈ ids, source.rowAt d block i = .ok (see i) ∧
      source.layout.boundOf i = .ok (bound i)) :
    run source block limit d p =
      .ok (p.followedBy (Page.ofCandidates see bound (limit - p.rows.length) ids)) := by
  induction ids generalizing p with
  | nil =>
    rw [run_of_nothing_ahead hp (List.map_eq_nil_iff.mp hahead), Page.ofCandidates_nil]
    simp [toPage, followedBy]
  | cons i ids ih =>
    obtain ⟨hi, hnodup⟩ := List.nodup_cons.mp hnodup
    obtain ⟨⟨hrow, hbound⟩, hsee⟩ := List.forall_mem_cons.mp hsee
    obtain ⟨scanner, hstep, hahead⟩ := exists_step_found hp hahead
    rw [run_step (by simp [hp]) hstep]
    cases hseen : see i with
    | none =>
      rw [hseen] at hrow
      have hrest := ih (p := skip ⟨scanner, p.rows, p.skipped, .found i⟩) rfl hroom hahead hnodup
        hsee
      rw [run_found_of_none rfl hrow, hrest, Page.ofCandidates_cons_of_none hseen]
      simp only [followedBy, skip, Nat.add_assoc, Nat.add_comm 1]
    | some row =>
      rw [hseen] at hrow
      by_cases hfull : p.rows.length < limit
      · have hlength : (p.rows ++ [row]).length = p.rows.length + 1 := by simp
        have hremaining : limit - p.rows.length = limit - (p.rows ++ [row]).length + 1 := by omega
        have hrest := ih (p := add ⟨scanner, p.rows, p.skipped, .found i⟩ row) rfl
          (by rw [add, hlength]; omega) hahead hnodup hsee
        rw [run_found_of_some (p := ⟨scanner, p.rows, p.skipped, .found i⟩) rfl hrow hfull, hrest,
          hremaining, Page.ofCandidates_cons_of_some hseen hi]
        simp [followedBy, add]
      · have hremaining : limit - p.rows.length = 0 := by omega
        rw [run_found_of_full (p := ⟨scanner, p.rows, p.skipped, .found i⟩) rfl hrow hbound hfull,
          hremaining, Page.ofCandidates_zero_cons_of_some hseen]
        simp [followedBy]

end PageProgress
end Chronicle
