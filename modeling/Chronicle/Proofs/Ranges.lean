import Mathlib.Data.List.Dedup
import Mathlib.Data.List.Sort
import Chronicle.Proofs.Pages
import Chronicle.Proofs.StoreRuns

/-!
# Ranges of a history

A history tells what a range of an index shows as of a block, without a look at
any tree: its identities between the two bounds, in the order of the index,
each as its newest version so far. A page of a range is the page of these
identities, whatever calls have built the store.
-/

namespace Chronicle

open FactStore

namespace Layout

variable {l : Layout}

/-- Whether a bound is not after another in the order of an index. -/
def Precedes (l : Layout) (a b : Tuple) : Prop :=
  l.comparator.compare (l.projected a) (l.projected b) ≠ .gt

instance (a b : Tuple) : Decidable (l.Precedes a b) := inferInstanceAs (Decidable (_ ≠ _))

/-- The order of an index is that of its places. -/
theorem precedes_iff {a b : Tuple} :
    l.Precedes a b ↔ (compare (l.placeOf a) (l.placeOf b)).isLE = true := by
  rw [Precedes, ← compare_placeOf, Ordering.isLE_iff_ne_gt]

theorem Precedes.trans {a b c : Tuple} (hab : l.Precedes a b) (hbc : l.Precedes b c) :
    l.Precedes a c := by
  rw [precedes_iff] at hab hbc ⊢
  exact Std.TransCmp.isLE_trans hab hbc

theorem precedes_total (a b : Tuple) : l.Precedes a b ∨ l.Precedes b a := by
  rw [precedes_iff, precedes_iff]
  cases hab : compare (l.placeOf a) (l.placeOf b) with
  | lt => simp
  | eq => simp
  | gt => simp [Std.OrientedCmp.lt_of_gt hab]

end Layout

namespace History

variable {l : Layout} {t : Table} {h : History} {first last i : Tuple} {block : UInt64}

/-- The identities that a history knows, each once. -/
def identities (h : History) : List Tuple := (h.map Fact.identity).dedup

theorem mem_identities : i ∈ h.identities ↔ h.Knows i := by
  rw [identities, List.mem_dedup, List.mem_map, Knows]

/-- The identities between two bounds, in the order of an index. -/
def candidates (l : Layout) (h : History) (first last : Tuple) : List Tuple :=
  (h.identities.filter fun i =>
    l.Precedes first (l.rawBound i) ∧ l.Precedes (l.rawBound i) last).insertionSort
      fun i j => l.Precedes (l.rawBound i) (l.rawBound j)

theorem mem_candidates : i ∈ h.candidates l first last ↔
    h.Knows i ∧ l.Precedes first (l.rawBound i) ∧ l.Precedes (l.rawBound i) last := by
  rw [candidates, List.mem_insertionSort, List.mem_filter, mem_identities, decide_eq_true_iff]

theorem nodup_candidates : (h.candidates l first last).Nodup :=
  (List.perm_insertionSort _ _).nodup_iff.mpr ((List.nodup_dedup _).filter _)

/-- The places of candidates ascend. -/
theorem pairwise_candidates (hl : l.Reads t) (hids : ∀ i, h.Knows i → t.IsIdentity i) :
    (h.candidates l first last).Pairwise fun i j =>
      compare (l.placeOf (l.rawBound i)) (l.placeOf (l.rawBound j)) = .lt := by
  have htotal : Std.Total fun i j => l.Precedes (l.rawBound i) (l.rawBound j) :=
    ⟨fun i j => Layout.precedes_total _ _⟩
  have htrans : IsTrans Tuple fun i j => l.Precedes (l.rawBound i) (l.rawBound j) :=
    ⟨fun _ _ _ hij hjk => hij.trans hjk⟩
  have hsorted : (h.candidates l first last).Pairwise fun i j =>
      l.Precedes (l.rawBound i) (l.rawBound j) := List.pairwise_insertionSort _ _
  refine (hsorted.and nodup_candidates).imp_of_mem fun {i j} hi hj hij => ?_
  have hi := hids i (mem_candidates.mp hi).1
  have hj := hids j (mem_candidates.mp hj).1
  have hne : l.placeOf (l.rawBound i) ≠ l.placeOf (l.rawBound j) := fun he =>
    hij.2 ((hl.placeOf_inj hi hj).mp he)
  have hle := Layout.precedes_iff.mp hij.1
  cases hc : compare (l.placeOf (l.rawBound i)) (l.placeOf (l.rawBound j)) with
  | lt => rfl
  | eq => exact absurd (Std.LawfulEqOrd.eq_of_compare hc) hne
  | gt => simp [hc] at hle

/-- A scan of a complete index finds the candidates. -/
theorem scan_eq_candidates (hl : l.Reads t) (hids : ∀ i, h.Knows i → t.IsIdentity i)
    {tree : IndexTree} (hplaces : l.Places h.Knows tree) (first last : Tuple) :
    (scan tree (.including (l.placeOf first)) (.including (l.placeOf last))).map (·.identity) =
      h.candidates l first last := by
  have hentries : tree.between (.including (l.placeOf first)) (.including (l.placeOf last)) =
      (h.candidates l first last).map fun i => (l.placeOf (l.rawBound i), i) := by
    refine SortedMap.eq_of_ascending_of_mem_iff (SortedMap.pairwise_between ..)
      (List.pairwise_map.mpr (pairwise_candidates hl hids)) fun e => ?_
    rw [SortedMap.mem_between, hplaces e, List.mem_map]
    simp only [SortedMap.Endpoint.admitsAbove, SortedMap.Endpoint.admitsBelow]
    constructor
    · rintro ⟨⟨hknows, hplace⟩, hlower, hupper⟩
      rw [hplace, ← Layout.precedes_iff] at hlower hupper
      exact ⟨e.2, mem_candidates.mpr ⟨hknows, hlower, hupper⟩, Prod.ext hplace.symm rfl⟩
    · rintro ⟨i, hi, rfl⟩
      obtain ⟨hknows, hlower, hupper⟩ := mem_candidates.mp hi
      exact ⟨⟨hknows, rfl⟩, Layout.precedes_iff.mp hlower, Layout.precedes_iff.mp hupper⟩
  rw [scan, hentries, List.map_map, List.map_map]
  exact List.map_id _

/-- Nothing lies between bounds in the wrong order. -/
theorem candidates_eq_nil (h : History) (hgt : ¬l.Precedes first last) :
    h.candidates l first last = [] := by
  refine List.eq_nil_iff_forall_not_mem.mpr fun i hi => hgt ?_
  obtain ⟨-, hlower, hupper⟩ := mem_candidates.mp hi
  exact hlower.trans hupper

/-- The row of an identity as of a block, if it has one. A tombstone has no
payload, so its row has the default of every field outside the identity. -/
def row (t : Table) (h : History) (block : UInt64) (identity : Tuple) : Option Row :=
  (h.versionAt identity block).map fun v => ⟨v.block, v.present, t.rowValues identity v.payload⟩

/-- The page of a range as of a block. -/
def page (t : Table) (l : Layout) (h : History) (first last : Tuple) (block : UInt64)
    (limit : Nat) : Page :=
  .ofCandidates (h.row t block) l.rawBound limit (h.candidates l first last)

/-- A tombstone among the versions has no payload. -/
theorem payload_of_versionAt {v : Version} (hv : h.versionAt i block = some v)
    (hpresent : v.present = false) : v.payload = [] := by
  obtain ⟨f, -, rfl⟩ := List.mem_map.mp (List.mem_of_find?_eq_some hv)
  simp only [Fact.version] at hpresent ⊢
  simp [hpresent]

/-- A store shows the row that the history tells. -/
theorem RecordedIn.resolveRow_eq {s : FactStore} {d : Directory} (hs : s.Sound)
    (hr : h.RecordedIn s.table (s.facts d)) (hi : s.table.IsIdentity i) :
    s.resolveRow d i block = .ok (h.row s.table block i) := by
  rw [resolveRow, resolve, hr.versionAt_eq hi, row]
  cases hv : h.versionAt i block with
  | none => rfl
  | some v =>
    simp only [Except.map, bind, Except.bind, Resolution.ofVersion]
    by_cases hpresent : v.present = true
    · rw [if_pos hpresent, Resolution.toRow, Table.assemble_eq hs.table hi, Option.map_some,
        hpresent]
      rfl
    · have habsent : v.present = false := by simpa using hpresent
      rw [if_neg hpresent, Resolution.toRow, Table.assemble_eq hs.table hi,
        Table.rowValues_defaultPayload hs.table, ← payload_of_versionAt hv habsent,
        Option.map_some, habsent]
      rfl

end History

namespace FactStore

variable {s : FactStore} {d : Directory}

/-- The row of a version is of its block. -/
theorem block_of_toRow {t : Table} {i : Tuple} {v : Version} {row : Row}
    (h : (Resolution.ofVersion (some v)).toRow t i = .ok (some row)) : row.block = v.block := by
  rw [Resolution.ofVersion] at h
  split at h
  all_goals
    rw [Resolution.toRow] at h
    generalize t.assemble i _ = assembled at h
    cases assembled with
    | error e => cases h
    | ok values =>
      cases h
      rfl

/-- A row that is shown is that of a version. -/
theorem versionAt_of_resolveRow {i : Tuple} {block : UInt64} {row : Row}
    (h : s.resolveRow d i block = .ok (some row)) :
    ∃ v, s.versionAt d i block = .ok (some v) ∧ row.block = v.block := by
  rw [resolveRow, resolve] at h
  cases hversion : s.versionAt d i block with
  | error e => simp [hversion, Except.map, bind, Except.bind] at h
  | ok found =>
    simp only [hversion, Except.map, bind, Except.bind] at h
    cases found with
    | none => cases h
    | some v => exact ⟨v, rfl, block_of_toRow h⟩

end FactStore

namespace RangeSource

/-- A page of a range of a complete index is that of the candidates. -/
theorem page_eq_ofCandidates {source : RangeSource} {t : Table} {d : Directory} {h : History}
    (hl : source.layout.Reads t) (hids : ∀ i, h.Knows i → t.IsIdentity i)
    (hplaces : source.layout.Places h.Knows (d.indexTree source.layout.treeName))
    {block : UInt64} {see : Tuple → Option Row}
    (hsee : ∀ i, h.Knows i → source.rowAt d block i = .ok (see i)) {first last : Tuple}
    (hfirst : source.layout.IsBound first) (hlast : source.layout.IsBound last) {limit : Nat}
    (hlimit : 0 < limit) :
    source.page d first last block limit = .ok (.ofCandidates see source.layout.rawBound limit
      (h.candidates source.layout first last)) := by
  rw [page, Layout.checkBound_eq_ok.mpr hfirst, Layout.checkBound_eq_ok.mpr hlast,
    hl.project_eq hfirst, hl.project_eq hlast, if_neg (Nat.ne_of_gt hlimit)]
  dsimp only [bind, Except.bind]
  split
  · rename_i hgt
    rw [History.candidates_eq_nil h (not_not_intro hgt), Page.ofCandidates_nil]
    rfl
  · rename_i hle
    have hscanning : compare (source.layout.placeOf first) (source.layout.placeOf last) ≠ .gt := by
      rwa [Layout.compare_placeOf]
    have hahead : ((Scanner.between (source.layout.placeOf first)
        (source.layout.placeOf last)).ahead (d.indexTree source.layout.treeName)).map
          (·.identity) = h.candidates source.layout first last := by
      rw [← History.scan_eq_candidates hl hids hplaces]
      simp [Scanner.ahead, Scanner.between, Scanner.lower, hscanning]
    have hshown : ∀ i ∈ h.candidates source.layout first last,
        source.rowAt d block i = .ok (see i) ∧
          source.layout.boundOf i = .ok (source.layout.rawBound i) := fun i hi => by
      have hknows := (History.mem_candidates.mp hi).1
      exact ⟨hsee i hknows, hl.boundOf_eq (hids i hknows)⟩
    refine (PageProgress.run_seeking rfl (Nat.zero_le limit) hahead History.nodup_candidates
      hshown).trans ?_
    simp [PageProgress.followedBy, PageProgress.start]

end RangeSource

namespace StoreSession

/-- A page of a range shows what the history tells. The store may have been
built by any calls, in which each index name has one definition. -/
theorem page_eq_history {t : Table} {s : FactStore} (hs : FactStore.ofTable t = .ok s)
    {calls : List StoreCall}
    (hnames : ∀ i j, Defines t calls i → Defines t calls j → i.name = j.name → i = j)
    {index : String} {l : Layout}
    (hl : ((StoreSession.mk .empty s).run calls).store.layout index = .ok l) {first last : Tuple}
    (hfirst : l.checkBound first = .ok ()) (hlast : l.checkBound last = .ok ()) (block : UInt64)
    {limit : Nat} (hlimit : 0 < limit) :
    let after := (StoreSession.mk .empty s).run calls
    (RangeSource.mk after.store l none).page after.directory first last block limit =
      .ok ((History.ofCalls t calls).page t l first last block limit) := by
  intro after
  obtain ⟨rfl, hkeeps, -⟩ : after.Complete (Defines t calls) t (History.ofCalls t calls) :=
    (complete_ofTable hs (Defines t calls)).run hnames fun i hi => hi
  have hget : after.store.layouts.get? index = some l := layout_eq_ok.mp hl
  have hrow : ∀ i, (History.ofCalls after.store.table calls).Knows i →
      (RangeSource.mk after.store l none).rowAt after.directory block i =
        .ok ((History.ofCalls after.store.table calls).row after.store.table block i) :=
    fun i hi => by
      rw [RangeSource.rowAt,
        hkeeps.recorded.resolveRow_eq hkeeps.sound (hkeeps.recorded.isIdentity hi)]
      cases (History.ofCalls after.store.table calls).row after.store.table block i <;> rfl
  exact RangeSource.page_eq_ofCandidates (hkeeps.sound.reads hget)
    (fun i hi => hkeeps.recorded.isIdentity hi) (hkeeps.complete hget) hrow
    (Layout.checkBound_eq_ok.mp hfirst) (Layout.checkBound_eq_ok.mp hlast) hlimit

/-- Four identities of the sample table in an index with falling primary keys. The
first is too new to be seen, and the second has a tombstone, whose payload is the
default. A page of two rows shows it and the third, and goes on at the fourth. -/
theorem sample_page_eq_history :
    let identity : UInt64 → Tuple := fun n => [.string "a", .string "b", .string "c", .uint64 n]
    let payload : Tuple := [.string "payer", .bytes [1]]
    let falling : Index := ⟨"contract_row_falling", "contract_row",
      [.asc "code", .desc "primary_key", .asc "table", .asc "scope"]⟩
    let calls : List StoreCall := [.append (.live (identity 8) 3 payload), .register falling,
      .append (.live (identity 6) 2 payload), .append (.live (identity 9) 6 payload),
      .append (.live (identity 7) 5 payload), .append (.tombstone (identity 8) 4)]
    let layout : Layout := ⟨"contract_row_falling", "contract_row",
      [⟨"code", 0, .string, none, .asc⟩, ⟨"primary_key", 3, .uint64, none, .desc⟩,
        ⟨"table", 1, .string, none, .asc⟩, ⟨"scope", 2, .string, none, .asc⟩]⟩
    let after := (StoreSession.mk .empty ⟨Sample.contractRow, .empty⟩).run calls
    (RangeSource.mk after.store layout none).page after.directory
      [.string "a", .uint64 20, .string "", .string ""]
      [.string "a", .uint64 0, .string "", .string ""] 5 2 =
      .ok ⟨[⟨4, false, identity 8 ++ [.string "", .bytes []]⟩, ⟨5, true, identity 7 ++ payload⟩],
        some [.string "a", .uint64 6, .string "b", .string "c"], 1⟩ := by
  intro identity payload falling calls layout after
  have hnames : ∀ i j, Defines Sample.contractRow calls i → Defines Sample.contractRow calls j →
      i.name = j.name → i = j := by
    rintro i j ⟨hi, -⟩ ⟨hj, -⟩ -
    obtain rfl : i = falling := by simpa [calls] using hi
    obtain rfl : j = falling := by simpa [calls] using hj
    rfl
  have hlayout : after.store.layout "contract_row_falling" = .ok layout :=
    eq_ok_of_toOption (by decide +kernel)
  refine (page_eq_history ofTable_contractRow hnames hlayout rfl rfl 5
    Nat.two_pos).trans (congrArg Except.ok ?_)
  decide +kernel

end StoreSession
end Chronicle
