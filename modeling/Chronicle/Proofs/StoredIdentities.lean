import Mathlib.Data.List.Destutter
import Mathlib.Data.Set.Card
import Chronicle.Proofs.Ranges
import Chronicle.Proofs.StoredHistories

/-!
# Stored identities

An identity is stored if it has a version. A complete index maps the place of
each stored identity to it and holds nothing else, so its size is the number of
stored identities. Building it anew counts each of them once, since the
versions of one identity are neighbours, and gives the same tree.
-/

namespace Chronicle

namespace FactStore

/-- Whether an identity has a stored version. -/
def Stores (s : FactStore) (d : Directory) (i : Tuple) : Prop :=
  ∃ newest older, s.versionsOf d i = .ok (newest :: older)

/-- Whether the tree of a layout maps the place of each stored identity to it
and holds nothing else. -/
def Indexes (s : FactStore) (d : Directory) (l : Layout) : Prop :=
  ∀ position i, (d.indexTree l.treeName).get? position = some i ↔
    s.Stores d i ∧ l.positionOfIdentity i = .ok position

end FactStore

namespace History

variable {s : FactStore} {d : Directory} {h h' : History} {l : Layout} {t : Table}

/-- The stored identities are those of the history. -/
theorem RecordedIn.stores_iff (hr : h.RecordedIn s.table (s.facts d)) {i : Tuple} :
    s.Stores d i ↔ h.Knows i := by
  rw [FactStore.Stores, knows_iff_versions_ne_nil, List.ne_nil_iff_exists_cons]
  by_cases hi : s.table.IsIdentity i
  · simp [hr.versionsOf_eq hi]
  · have hunknown : h.versions i = [] := by
      by_contra hne
      exact hi (hr.isIdentity (knows_iff_versions_ne_nil.mpr hne))
    have hrefused : ∀ versions, s.versionsOf d i ≠ .ok versions := fun versions heq => by
      rw [FactStore.versionsOf] at heq
      cases hcheck : s.table.checkIdentity i with
      | error e => simp [hcheck, bind, Except.bind] at heq
      | ok _ => exact hi (Table.checkIdentity_eq_ok.mp hcheck)
    simp [hunknown, hrefused]

/-- An index is complete exactly if its tree holds the identities of the
history, each at its place. -/
theorem RecordedIn.indexes_iff (hr : h.RecordedIn s.table (s.facts d)) (hl : l.Reads s.table) :
    s.Indexes d l ↔ l.Places h.Knows (d.indexTree l.treeName) := by
  have hplace : ∀ {i position}, h.Knows i →
      (l.positionOfIdentity i = .ok position ↔ position = l.placeOf (l.rawBound i)) := by
    intro i position hi
    rw [hl.positionOfIdentity_eq (hr.isIdentity hi), Except.ok.injEq, eq_comm]
  constructor
  · intro hindexes e
    rw [← SortedMap.get?_eq_some_iff, hindexes, hr.stores_iff]
    exact and_congr_right hplace
  · intro hplaces position i
    rw [SortedMap.get?_eq_some_iff, hplaces, hr.stores_iff]
    exact and_congr_right fun hi => (hplace hi).symm

theorem nodup_identities (h : History) : h.identities.Nodup := List.nodup_dedup _

/-- An index of identities of the history maps places to stored identities. -/
theorem RecordedIn.entry_of_places (hr : h.RecordedIn s.table (s.facts d)) (hl : l.Reads s.table)
    {placed : Tuple → Prop} (hp : ∀ i, placed i → h.Knows i)
    (hplaces : l.Places placed (d.indexTree l.treeName)) (position : Bytes) (i : Tuple)
    (hi : (d.indexTree l.treeName).get? position = some i) :
    s.Stores d i ∧ l.positionOfIdentity i = .ok position := by
  rw [SortedMap.get?_eq_some_iff, hplaces] at hi
  dsimp only at hi
  obtain ⟨hplaced, rfl⟩ := hi
  exact ⟨hr.stores_iff.mpr (hp i hplaced),
    hl.positionOfIdentity_eq (hr.isIdentity (hp i hplaced))⟩

/-- Histories that know the same identities know the same number of them. -/
theorem length_identities_eq (hknows : ∀ i, h.Knows i ↔ h'.Knows i) :
    h.identities.length = h'.identities.length := by
  refine ((List.perm_ext_iff_of_nodup h.nodup_identities h'.nodup_identities).mpr
    fun i => ?_).length_eq
  rw [mem_identities, mem_identities, hknows]

/-- The number of stored identities. -/
theorem RecordedIn.encard_stores (hr : h.RecordedIn s.table (s.facts d)) :
    {i | s.Stores d i}.encard = h.identities.length := by
  have hset : {i | s.Stores d i} = h.identities.toFinset := by
    ext i
    simp [hr.stores_iff, mem_identities]
  rw [hset, Set.encard_coe_eq_coe_finsetCard, List.toFinset_card_of_nodup h.nodup_identities]

end History

namespace Layout

variable {l : Layout} {t : Table} {h : History} {tree : IndexTree}

/-- A complete index has one entry for each identity of the history. -/
theorem Places.size_eq (hp : l.Places h.Knows tree) : tree.size = h.identities.length := by
  have hnodup : (tree.entries.map Prod.snd).Nodup := by
    refine List.pairwise_map.mpr (tree.ascending.imp_of_mem fun {a b} ha hb hab he => ?_)
    have hkeys : a.1 = b.1 := by rw [((hp a).mp ha).2, ((hp b).mp hb).2, he]
    rw [hkeys, Std.ReflOrd.compare_self] at hab
    cases hab
  have hmem : ∀ i, i ∈ tree.entries.map Prod.snd ↔ i ∈ h.identities := by
    intro i
    rw [History.mem_identities, List.mem_map]
    constructor
    · rintro ⟨e, he, rfl⟩
      exact ((hp e).mp he).1
    · intro hi
      exact ⟨(l.placeOf (l.rawBound i), i), (hp _).mpr ⟨hi, rfl⟩, rfl⟩
  rw [SortedMap.size, ← List.length_map Prod.snd]
  exact ((List.perm_ext_iff_of_nodup hnodup h.nodup_identities).mpr hmem).length_eq

/-- Placing identities after a first one counts those that differ from their
predecessor. -/
theorem placeAll_count (hl : l.Reads t) {facts : List Fact} (hfits : ∀ f ∈ facts, f.Fits t)
    (i : Tuple) (tree : IndexTree) :
    ∃ count, (FactStore.placeAll l (some (Key.ofIdentity i)) tree (facts.map Fact.entry)).2 =
        .ok count ∧
      count + 1 = ((facts.map Fact.identity).destutter' (· ≠ ·) i).length := by
  induction facts generalizing i tree with
  | nil => exact ⟨0, rfl, rfl⟩
  | cons f facts ih =>
    rw [List.forall_mem_cons] at hfits
    obtain ⟨hf, hrest⟩ := hfits
    rw [List.map_cons, List.map_cons, Fact.entry, FactStore.placeAll]
    dsimp only
    rw [Key.identityPart_ofVersion, hl.positionOfIdentity_eq hf.1]
    split
    · rename_i hrepeat
      obtain rfl : i = f.identity := Key.ofIdentity_inj.mp (Option.some.inj hrepeat)
      rw [List.destutter'_cons_neg _ (by simp)]
      exact ih hrest _ tree
    · rename_i hnew
      have hne : i ≠ f.identity := fun he => hnew (by rw [he])
      obtain ⟨count, heq, hlength⟩ := ih hrest f.identity
        (tree.insert (l.placeOf (l.rawBound f.identity)) f.identity)
      refine ⟨count + 1, ?_, ?_⟩
      · dsimp only
        rw [heq]
        rfl
      · rw [List.destutter'_cons_pos _ hne, List.length_cons, hlength]

/-- Placing the identities of facts in the order of their keys counts each
identity once. -/
theorem count_placeAll (hl : l.Reads t) {facts : List Fact} (hfits : ∀ f ∈ facts, f.Fits t)
    (hascending : (facts.map Fact.entry).Pairwise fun a b => compare a.1 b.1 = .lt)
    (tree : IndexTree) :
    (FactStore.placeAll l none tree (facts.map Fact.entry)).2 =
      .ok (History.identities facts).length := by
  have hsorted : (facts.map Fact.identity).Pairwise fun i j =>
      (compare (Key.ofIdentity i) (Key.ofIdentity j)).isLE = true := by
    rw [List.pairwise_map] at hascending ⊢
    refine hascending.imp_of_mem fun {f g} hf hg hlt => ?_
    by_cases hidentity : f.identity = g.identity
    · rw [hidentity, Std.ReflOrd.compare_self]
      rfl
    · rw [Fact.entry, Fact.entry, Key.compare_ofVersion_of_ne
        (History.length_identity (hfits f hf).1 (hfits g hg).1) hidentity,
        ← Key.compare_ofTuple] at hlt
      rw [Key.ofIdentity, Key.ofIdentity, hlt]
      rfl
  have hantisymm : Std.Antisymm fun i j : Tuple =>
      (compare (Key.ofIdentity i) (Key.ofIdentity j)).isLE = true :=
    ⟨fun i j hij hji => Key.ofIdentity_inj.mp
      (Std.LawfulEqOrd.eq_of_compare (Std.OrientedCmp.isLE_antisymm hij hji))⟩
  rw [History.identities, ← hsorted.destutter_eq_dedup]
  cases facts with
  | nil => rfl
  | cons f facts =>
    rw [List.forall_mem_cons] at hfits
    obtain ⟨hf, hrest⟩ := hfits
    obtain ⟨count, heq, hlength⟩ := placeAll_count hl hrest f.identity
      (tree.insert (l.placeOf (l.rawBound f.identity)) f.identity)
    rw [List.map_cons, List.map_cons, Fact.entry, FactStore.placeAll]
    dsimp only
    rw [Key.identityPart_ofVersion, hl.positionOfIdentity_eq hf.1, if_neg (by simp)]
    dsimp only
    rw [heq, List.destutter_cons', ← hlength]
    rfl

end Layout

namespace FactStore

variable {s : FactStore} {d : Directory} {h : History} {l : Layout}

/-- Building an index counts the identities of the history. -/
theorem count_buildIndex (hr : h.RecordedIn s.table (s.facts d)) (hl : l.Reads s.table)
    (start : IndexTree) : (s.buildIndex d l start).2 = .ok h.identities.length := by
  obtain ⟨facts, hentries, hfacts⟩ := hr.exists_facts
  have hascending := (s.facts d).ascending
  have hknows := hr.knows_iff_of_entries_eq hentries hfacts
  rw [hentries] at hascending
  rw [buildIndex, hentries, ← History.length_identities_eq hknows]
  exact Layout.count_placeAll hl (fun f hf => hr.fits f (hfacts f hf)) hascending start

/-- Rebuilding a complete index counts its entries and changes no tree. -/
theorem rebuildIndex_of_complete (hs : s.Sound) (hr : h.RecordedIn s.table (s.facts d))
    {index : String} (hl : s.layouts.get? index = some l)
    (hplaces : l.Places h.Knows (d.indexTree l.treeName)) :
    ∃ d', s.rebuildIndex d index = (d', .ok (d.indexTree l.treeName).size) ∧
      d.Reindexed (fun _ => False) d' := by
  obtain ⟨d', count, heq, hframe, hplaces'⟩ := rebuildIndex_of_ok hs hr hl
  have hcount : (s.rebuildIndex d index).2 = .ok h.identities.length := by
    rw [rebuildIndex, layout_eq_ok.mpr hl]
    exact count_buildIndex hr (hs.reads hl) .empty
  refine ⟨d', ?_, hframe.factTree_eq, fun name _ => ?_, hframe.head_eq⟩
  · rw [hplaces.size_eq, ← hcount, heq]
  · by_cases hname : name = l.treeName
    · rw [hname]
      exact hplaces'.unique hplaces
    · exact hframe.indexTree_eq name hname

end FactStore
end Chronicle
