import Chronicle.Proofs.JoinedRows

/-!
# Visible ranges

What a range shows as of a block is a list of identities in the order of the
index, which depends on the view alone. A page takes the first of them and its
token is the bound of the next, from which the rest of the list is what the
range shows. Pages that follow each other therefore show the whole list.
-/

namespace Chronicle

open FactStore

/-- Identities in ascending order of their places are determined by their
members. -/
theorem Layout.eq_of_ascending {l : Layout} {ids ids' : List Tuple}
    (h : ids.Pairwise fun i j =>
      compare (l.placeOf (l.rawBound i)) (l.placeOf (l.rawBound j)) = .lt)
    (h' : ids'.Pairwise fun i j =>
      compare (l.placeOf (l.rawBound i)) (l.placeOf (l.rawBound j)) = .lt)
    (hmem : ∀ i, i ∈ ids ↔ i ∈ ids') : ids = ids' := by
  have hplaced : ids.map (fun i => (l.placeOf (l.rawBound i), i)) =
      ids'.map fun i => (l.placeOf (l.rawBound i), i) :=
    SortedMap.eq_of_ascending_of_mem_iff (List.pairwise_map.mpr h) (List.pairwise_map.mpr h')
      fun e => by simp only [List.mem_map, hmem]
  simpa [Function.comp_def] using congrArg (List.map Prod.snd) hplaced

namespace RangeSource

variable {source : RangeSource} {d d' : Directory} {m m' : UInt64} {first last : Tuple}

/-- The identities that a range shows, in the order of the index. -/
def visible (source : RangeSource) (d : Directory) (first last : Tuple) (block : UInt64) :
    List Tuple :=
  ((d.history source.store.table.name).candidates source.layout first last).filter
    fun i => (source.seen d block i).isSome

/-- The rows of a range, in the order of the index. -/
def rows (source : RangeSource) (d : Directory) (first last : Tuple) (block : UInt64) :
    List Row :=
  (source.visible d first last block).filterMap (source.seen d block)

/-- Each visible identity has one row. -/
theorem length_rows : (source.rows d first last m).length =
    (source.visible d first last m).length := by
  rw [rows, List.length_filterMap_eq_countP, List.countP_eq_length]
  exact fun i hi => (List.mem_filter.mp hi).2

/-- Rows depend on the view alone. -/
theorem seen_congr (h : d.SameView m d' m') : source.seen d m = source.seen d' m' := by
  have hrow (t : Table) (table : String) :
      (d.history table).row t m = (d'.history table).row t m' :=
    funext fun i => by rw [History.row, History.row, h]
  have hjoined (t : Table) (table : String) (j : Join) (row : Row) :
      (d.history table).joined t j m row = (d'.history table).joined t j m' row := by
    rw [History.joined, History.joined, hrow]
  funext i
  simp only [seen, hrow, hjoined]

/-- An identity that is seen is known. -/
theorem knows_of_seen {i : Tuple} (hi : (source.seen d m i).isSome = true) :
    (d.history source.store.table.name).Knows i := by
  rw [seen, Option.isSome_map] at hi
  obtain ⟨row, hrow⟩ := Option.isSome_iff_exists.mp hi
  exact History.knows_of_row hrow

theorem mem_visible {i : Tuple} : i ∈ source.visible d first last m ↔
    (source.seen d m i).isSome = true ∧ source.layout.Precedes first (source.layout.rawBound i) ∧
      source.layout.Precedes (source.layout.rawBound i) last := by
  rw [visible, List.mem_filter, History.mem_candidates]
  constructor
  · rintro ⟨⟨-, hrange⟩, hseen⟩
    exact ⟨hseen, hrange⟩
  · rintro ⟨hseen, hrange⟩
    exact ⟨⟨knows_of_seen hseen, hrange⟩, hseen⟩

namespace Ready

theorem reads (hs : source.Ready d) : source.layout.Reads source.store.table := by
  obtain ⟨known, hkeeps⟩ := hs.keeps
  obtain ⟨name, hname⟩ := hs.registered
  exact hkeeps.sound.reads hname

theorem isIdentity (hs : source.Ready d) {i : Tuple}
    (hi : (d.history source.store.table.name).Knows i) : source.store.table.IsIdentity i := by
  obtain ⟨known, hkeeps⟩ := hs.keeps
  exact hkeeps.recorded.isIdentity hi

theorem pairwise_visible (hs : source.Ready d) (first last : Tuple) (m : UInt64) :
    (source.visible d first last m).Pairwise fun i j =>
      compare (source.layout.placeOf (source.layout.rawBound i))
        (source.layout.placeOf (source.layout.rawBound j)) = .lt :=
  (History.pairwise_candidates hs.reads fun _ hi => hs.isIdentity hi).filter _

/-- What a range shows depends on the view alone. -/
theorem visible_congr (hs : source.Ready d) (hs' : source.Ready d') (h : d.SameView m d' m') :
    source.visible d first last m = source.visible d' first last m' :=
  Layout.eq_of_ascending (hs.pairwise_visible ..) (hs'.pairwise_visible ..) fun i => by
    rw [mem_visible, mem_visible, seen_congr h]

/-- The rows of a range depend on the view alone. -/
theorem rows_congr (hs : source.Ready d) (hs' : source.Ready d') (h : d.SameView m d' m') :
    source.rows d first last m = source.rows d' first last m' := by
  rw [rows, rows, hs.visible_congr hs' h, seen_congr h]

/-- A page shows the first visible identities and names the next one. -/
theorem exists_page (hs : source.Ready d) (hfirst : source.layout.IsBound first)
    (hlast : source.layout.IsBound last) {limit : Nat} (hlimit : 0 < limit) :
    ∃ page, source.page d first last m limit = .ok page ∧
      page.rows = ((source.visible d first last m).take limit).filterMap (source.seen d m) ∧
      page.more = (source.visible d first last m)[limit]?.map source.layout.rawBound := by
  obtain ⟨known, hkeeps⟩ := hs.keeps
  obtain ⟨name, hname⟩ := hs.registered
  exact ⟨_, page_eq_ofCandidates hs.reads (fun _ hi => hs.isIdentity hi) (hkeeps.complete hname)
    (fun _ hi => hs.rowAt_eq hi m) hfirst hlast hlimit, rfl, rfl⟩

/-- From the bound of a visible identity on, the range shows that identity and
those after it. -/
theorem visible_rawBound (hs : source.Ready d) {n : Nat} {i : Tuple}
    (hi : (source.visible d first last m)[n]? = some i) :
    source.visible d (source.layout.rawBound i) last m =
      (source.visible d first last m).drop n := by
  obtain ⟨hlt, hget⟩ := List.getElem?_eq_some_iff.mp hi
  have hascending := hs.pairwise_visible first last m
  have hdrop : (source.visible d first last m).drop n =
      i :: (source.visible d first last m).drop (n + 1) := by
    rw [← hget, ← List.drop_eq_getElem_cons hlt]
  have hsplit : source.visible d first last m = (source.visible d first last m).take n ++
      i :: (source.visible d first last m).drop (n + 1) := by
    rw [← hdrop, List.take_append_drop]
  obtain ⟨-, hfirst, -⟩ := mem_visible.mp (List.mem_of_getElem? hi)
  refine Layout.eq_of_ascending (hs.pairwise_visible ..) hascending.drop fun x => ?_
  rw [hdrop]
  rw [hsplit, List.pairwise_append] at hascending
  obtain ⟨-, htail, hcross⟩ := hascending
  constructor
  · intro hx
    obtain ⟨hseen, hlower, hupper⟩ := mem_visible.mp hx
    have hx : x ∈ source.visible d first last m :=
      mem_visible.mpr ⟨hseen, hfirst.trans hlower, hupper⟩
    rw [hsplit, List.mem_append] at hx
    rcases hx with hx | hx
    · -- An identity before the token would come before itself.
      have hlt := hcross x hx i (List.mem_cons_self ..)
      have hle := Layout.precedes_iff.mp hlower
      rw [Std.OrientedCmp.gt_of_lt hlt] at hle
      cases hle
    · exact hx
  · intro hx
    have hlower : source.layout.Precedes (source.layout.rawBound i) (source.layout.rawBound x) := by
      rw [Layout.precedes_iff]
      rcases List.mem_cons.mp hx with rfl | hx
      · rw [Std.ReflOrd.compare_self]
        rfl
      · rw [(List.pairwise_cons.mp htail).1 x hx]
        rfl
    have hx : x ∈ source.visible d first last m := by
      rw [hsplit]
      exact List.mem_append_right _ hx
    obtain ⟨hseen, -, hupper⟩ := mem_visible.mp hx
    exact mem_visible.mpr ⟨hseen, hlower, hupper⟩

/-- The token of a page is a bound. -/
theorem isBound_of_visible (hs : source.Ready d) {i : Tuple}
    (hi : i ∈ source.visible d first last m) :
    source.layout.IsBound (source.layout.rawBound i) :=
  hs.reads.isBound_rawBound (hs.isIdentity (knows_of_seen (mem_visible.mp hi).1))

/-- A page shows its range to the end, or it is full and its token is the bound
from which the range goes on. -/
theorem page_cases (hs : source.Ready d) (hfirst : source.layout.IsBound first)
    (hlast : source.layout.IsBound last) (m : UInt64) {limit : Nat} (hlimit : 0 < limit) :
    ∃ page, source.page d first last m limit = .ok page ∧
      (page.more = none ∧ page.rows = source.rows d first last m ∧ page.rows.length ≤ limit ∨
        ∃ token, page.more = some token ∧ source.layout.IsBound token ∧
          source.rows d first last m = page.rows ++ source.rows d token last m ∧
          page.rows.length = limit ∧ 0 < (source.rows d token last m).length) := by
  obtain ⟨page, hpage, hrows, hmore⟩ := hs.exists_page (m := m) hfirst hlast hlimit
  refine ⟨page, hpage, ?_⟩
  cases hnext : (source.visible d first last m)[limit]? with
  | none =>
    have hlength := List.getElem?_eq_none_iff.mp hnext
    rw [List.take_of_length_le hlength] at hrows
    refine .inl ⟨by rw [hmore, hnext, Option.map_none], hrows, ?_⟩
    rw [hrows, ← rows, length_rows]
    exact hlength
  | some i =>
    obtain ⟨hlt, -⟩ := List.getElem?_eq_some_iff.mp hnext
    have hrest := hs.visible_rawBound hnext
    have hsplit : source.rows d first last m =
        page.rows ++ source.rows d (source.layout.rawBound i) last m := by
      rw [hrows, rows, rows, hrest, ← List.filterMap_append, List.take_append_drop]
    have hlength := congrArg List.length hsplit
    rw [List.length_append, length_rows, length_rows, hrest, List.length_drop] at hlength
    refine .inr ⟨source.layout.rawBound i, by rw [hmore, hnext, Option.map_some],
      hs.isBound_of_visible (List.mem_of_getElem? hnext), hsplit, by omega, ?_⟩
    rw [length_rows, hrest, List.length_drop]
    omega

/-- Pages that follow each other show the rows of the range, if there is fuel
for one page a row. -/
theorem followPages_eq (hs : source.Ready d) (hlast : source.layout.IsBound last) {limit : Nat}
    (hlimit : 0 < limit) {fuel : Nat} (hfirst : source.layout.IsBound first)
    (hfuel : max 1 (source.rows d first last m).length ≤ fuel) :
    source.followPages d last m limit fuel first = .ok (source.rows d first last m) := by
  induction fuel generalizing first with
  | zero => omega
  | succ fuel ih =>
    obtain ⟨page, hpage, hcases⟩ := hs.page_cases hfirst hlast m hlimit
    rw [followPages, hpage]
    dsimp only [bind, Except.bind]
    obtain ⟨hmore, hrows, -⟩ | ⟨token, hmore, htoken, hsplit, hfull, hrest⟩ := hcases
    · rw [hmore, hrows]
      rfl
    · have hlength := congrArg List.length hsplit
      rw [List.length_append] at hlength
      rw [hmore]
      dsimp only
      rw [ih htoken (by omega), hsplit]
      rfl

/-- There are no more visible identities than entries of the index. -/
theorem length_visible_le (hs : source.Ready d) (first last : Tuple) (m : UInt64) :
    (source.visible d first last m).length ≤ (d.indexTree source.layout.treeName).size := by
  obtain ⟨known, hkeeps⟩ := hs.keeps
  obtain ⟨name, hname⟩ := hs.registered
  have hcandidates := congrArg List.length (History.scan_eq_candidates hs.reads
    (fun _ hi => hs.isIdentity hi) (hkeeps.complete hname) first last)
  rw [List.length_map, scan, List.length_map] at hcandidates
  calc (source.visible d first last m).length
      ≤ ((d.history source.store.table.name).candidates source.layout first last).length :=
        List.length_filter_le ..
    _ ≤ (d.indexTree source.layout.treeName).size := by
        rw [← hcandidates]
        exact List.length_filter_le ..

/-- Reading a range in pages of any size gives its rows. -/
theorem allRows_eq (hs : source.Ready d) (hfirst : source.layout.IsBound first)
    (hlast : source.layout.IsBound last) {limit : Nat} (hlimit : 0 < limit) :
    source.allRows d first last m limit = .ok (source.rows d first last m) := by
  rw [allRows, if_neg (Nat.ne_of_gt hlimit)]
  have hsize := hs.length_visible_le first last m
  rw [← length_rows] at hsize
  exact hs.followPages_eq hlast hlimit hfirst (by omega)

end Ready

end RangeSource
end Chronicle
