import Chronicle.Proofs.Histories
import Chronicle.Proofs.Layouts

/-!
# Index trees

An index tree that is complete holds the identities of the stored facts, each
at its place, and nothing else. Placing an identity adds one to the tree of
each registered layout, and building a tree places the identities of all stored
facts. Neither touches a fact tree, the head or the tree of another index.
-/

namespace Chronicle

open FactStore

/-- Whether a history has a fact of an identity. -/
def History.Knows (h : History) (identity : Tuple) : Prop := ∃ f ∈ h, f.identity = identity

@[simp] theorem History.knows_nil (identity : Tuple) : ¬History.Knows [] identity := by
  simp [History.Knows]

@[simp] theorem History.knows_cons {h : History} {f : Fact} {identity : Tuple} :
    History.Knows (f :: h) identity ↔ f.identity = identity ∨ h.Knows identity := by
  simp [History.Knows]

theorem History.RecordedIn.isIdentity {h : History} {t : Table} {tree : FactTree}
    (hr : h.RecordedIn t tree) {identity : Tuple} (hk : h.Knows identity) :
    t.IsIdentity identity := by
  obtain ⟨f, hf, rfl⟩ := hk
  exact (hr.fits f hf).1

/-- A change of index trees of some names and of nothing else. -/
structure Directory.Reindexed (names : String → Prop) (d d' : Directory) : Prop where
  /-- The facts are the same. -/
  factTree_eq : ∀ table, d'.factTree table = d.factTree table
  /-- The other index trees are the same. -/
  indexTree_eq : ∀ name, ¬names name → d'.indexTree name = d.indexTree name
  /-- The head is the same. -/
  head_eq : d'.head = d.head

namespace Directory.Reindexed

variable {names : String → Prop} {d d' d'' : Directory}

theorem refl : Reindexed names d d := ⟨fun _ => rfl, fun _ _ => rfl, rfl⟩

theorem trans (h : Reindexed names d d') (h' : Reindexed names d' d'') :
    Reindexed names d d'' :=
  ⟨fun table => (h'.factTree_eq table).trans (h.factTree_eq table),
    fun name hn => (h'.indexTree_eq name hn).trans (h.indexTree_eq name hn),
    h'.head_eq.trans h.head_eq⟩

theorem mono {wider : String → Prop} (h : Reindexed names d d')
    (hw : ∀ name, names name → wider name) : Reindexed wider d d' :=
  ⟨h.factTree_eq, fun name hn => h.indexTree_eq name fun hm => hn (hw name hm), h.head_eq⟩

theorem setIndexTree (d : Directory) (name : String) (tree : IndexTree) :
    Reindexed (· = name) d (d.setIndexTree name tree) :=
  ⟨fun _ => rfl, fun _ ho => indexTree_setIndexTree_of_ne d ho tree, rfl⟩

end Directory.Reindexed

namespace Layout

variable {l : Layout} {t : Table} {placed : Tuple → Prop} {tree : IndexTree} {i : Tuple}

/-- Whether a tree holds the identities of a set, each at its place, and
nothing else. -/
def Places (l : Layout) (placed : Tuple → Prop) (tree : IndexTree) : Prop :=
  ∀ e, e ∈ tree.entries ↔ placed e.2 ∧ e.1 = l.placeOf (l.rawBound e.2)

theorem places_of_isEmpty (h : tree.isEmpty = true) : l.Places (fun _ => False) tree := by
  have hmem := SortedMap.isEmpty_iff.mp h
  simp [Places, hmem]

theorem Places.congr (h : l.Places placed tree) {placed' : Tuple → Prop}
    (hp : ∀ i, placed i ↔ placed' i) : l.Places placed' tree := fun e => by
  rw [h e, hp]

/-- A set has one tree. -/
theorem Places.unique (h : l.Places placed tree) {tree' : IndexTree} (h' : l.Places placed tree') :
    tree = tree' :=
  SortedMap.ext_entries fun e => by rw [h e, h' e]

theorem Places.isEmpty_iff (h : l.Places placed tree) :
    tree.isEmpty = true ↔ ∀ i, ¬placed i := by
  rw [SortedMap.isEmpty_iff]
  constructor
  · intro hnone i hi
    exact hnone (l.placeOf (l.rawBound i), i) ((h _).mpr ⟨hi, rfl⟩)
  · intro hnone e he
    exact hnone e.2 ((h e).mp he).1

/-- The place of an identity is taken only by itself. -/
theorem Places.contains_iff (hl : l.Reads t) (h : l.Places placed tree)
    (hp : ∀ j, placed j → t.IsIdentity j) (hi : t.IsIdentity i) :
    tree.contains (l.placeOf (l.rawBound i)) = true ↔ placed i := by
  rw [SortedMap.contains_iff]
  constructor
  · rintro ⟨j, hj⟩
    obtain ⟨hplaced, hplace⟩ := (h _).mp hj
    rwa [(hl.placeOf_inj hi (hp j hplaced)).mp hplace]
  · intro hplaced
    exact ⟨i, (h _).mpr ⟨hplaced, rfl⟩⟩

/-- Placing an identity adds it to the set. -/
theorem Places.insert (hl : l.Reads t) (h : l.Places placed tree)
    (hp : ∀ j, placed j → t.IsIdentity j) (hi : t.IsIdentity i) :
    l.Places (fun j => i = j ∨ placed j) (tree.insert (l.placeOf (l.rawBound i)) i) := by
  intro e
  rw [SortedMap.mem_entries_insert, h e]
  constructor
  · rintro (rfl | ⟨-, hplaced, hplace⟩)
    · exact ⟨.inl rfl, rfl⟩
    · exact ⟨.inr hplaced, hplace⟩
  · rintro ⟨hj, hplace⟩
    by_cases he : e.2 = i
    · refine .inl (Prod.ext ?_ he)
      rw [hplace, he]
    · refine .inr ⟨fun hk => he ?_, hj.resolve_left fun hij => he hij.symm, hplace⟩
      have hplaced : placed e.2 := hj.resolve_left fun hij => he hij.symm
      exact (hl.placeOf_inj (hp _ hplaced) hi).mp (hplace.symm.trans hk)

/-- Place an identity in the tree of a layout, unless its place is taken. -/
def placeIdentity (identity : Tuple) (d : Directory) (l : Layout) : Directory :=
  if (d.indexTree l.treeName).contains (l.placeOf (l.rawBound identity)) then d
  else d.setIndexTree l.treeName
    ((d.indexTree l.treeName).insert (l.placeOf (l.rawBound identity)) identity)

theorem Reads.indexIdentity_eq (hl : l.Reads t) (hi : t.IsIdentity i) (d : Directory) :
    indexIdentity i d l = .ok (placeIdentity i d l) := by
  rw [indexIdentity, hl.positionOfIdentity_eq hi]
  rfl

/-- Every registered layout has a place for an identity of the table. -/
theorem indexAll_eq {layouts : List Layout} (hl : ∀ l ∈ layouts, l.Reads t)
    (hi : t.IsIdentity i) (d : Directory) :
    indexAll i d layouts = (layouts.foldl (placeIdentity i) d, .ok ()) := by
  induction layouts generalizing d with
  | nil => rfl
  | cons l layouts ih =>
    rw [indexAll, (hl l (List.mem_cons_self ..)).indexIdentity_eq hi]
    exact ih (fun l' hl' => hl l' (List.mem_cons_of_mem _ hl')) _

theorem reindexed_placeIdentity (identity : Tuple) (d : Directory) (l : Layout) :
    d.Reindexed (· = l.treeName) (placeIdentity identity d l) := by
  unfold placeIdentity
  split
  · exact .refl
  · exact .setIndexTree d _ _

theorem reindexed_foldl_placeIdentity (identity : Tuple) (layouts : List Layout) (d : Directory) :
    d.Reindexed (fun name => ∃ l ∈ layouts, name = l.treeName)
      (layouts.foldl (placeIdentity identity) d) := by
  induction layouts generalizing d with
  | nil => exact .refl
  | cons l layouts ih =>
    refine ((reindexed_placeIdentity identity d l).mono ?_).trans ((ih _).mono ?_)
    · intro name hn
      exact ⟨l, List.mem_cons_self .., hn⟩
    · rintro name ⟨l', hl', hn⟩
      exact ⟨l', List.mem_cons_of_mem _ hl', hn⟩

/-- Placing an identity under some layouts changes their trees alone, up to the
first that has no place for it. -/
theorem reindexed_indexAll (identity : Tuple) (layouts : List Layout) (d : Directory) :
    d.Reindexed (fun name => ∃ l ∈ layouts, name = l.treeName)
      (indexAll identity d layouts).1 := by
  induction layouts generalizing d with
  | nil => exact .refl
  | cons l layouts ih =>
    rw [indexAll, indexIdentity]
    cases l.positionOfIdentity identity with
    | error e => exact .refl
    | ok position =>
      refine Directory.Reindexed.trans ?_ ((ih _).mono ?_)
      · split
        · exact .refl
        · refine (Directory.Reindexed.setIndexTree d _ _).mono fun name hn => ?_
          exact ⟨l, List.mem_cons_self .., hn⟩
      · rintro name ⟨l', hl', hn⟩
        exact ⟨l', List.mem_cons_of_mem _ hl', hn⟩

theorem Places.placeIdentity (hl : l.Reads t) {d : Directory}
    (h : l.Places placed (d.indexTree l.treeName)) (hp : ∀ j, placed j → t.IsIdentity j)
    (hi : t.IsIdentity i) :
    l.Places (fun j => i = j ∨ placed j) ((l.placeIdentity i d).indexTree l.treeName) := by
  unfold Layout.placeIdentity
  split
  · rename_i htaken
    have hplaced := (h.contains_iff hl hp hi).mp htaken
    refine h.congr fun j => ⟨.inr, ?_⟩
    rintro (rfl | hj)
    · exact hplaced
    · exact hj
  · rw [Directory.indexTree_setIndexTree_self]
    exact h.insert hl hp hi

/-- Placing an identity under layouts of different tree names adds it to the
tree of each. -/
theorem Places.foldl_placeIdentity {layouts : List Layout} (hreads : ∀ l ∈ layouts, l.Reads t)
    (hnames : layouts.Pairwise fun a b => a.treeName ≠ b.treeName)
    (hp : ∀ j, placed j → t.IsIdentity j) (hi : t.IsIdentity i) {d : Directory}
    (hmem : l ∈ layouts) (h : l.Places placed (d.indexTree l.treeName)) :
    l.Places (fun j => i = j ∨ placed j)
      ((layouts.foldl (Layout.placeIdentity i) d).indexTree l.treeName) := by
  induction layouts generalizing d with
  | nil => simp at hmem
  | cons first layouts ih =>
    obtain ⟨hfirst, hrest⟩ := List.pairwise_cons.mp hnames
    rw [List.foldl_cons]
    rcases List.mem_cons.mp hmem with rfl | hmem
    · -- The later layouts have other trees.
      rw [(reindexed_foldl_placeIdentity i layouts _).indexTree_eq _ fun ⟨l', hl', he⟩ =>
        hfirst l' hl' he]
      exact h.placeIdentity (hreads l (List.mem_cons_self ..)) hp hi
    · refine ih (fun l' hl' => hreads l' (List.mem_cons_of_mem _ hl')) hrest hmem ?_
      rwa [(reindexed_placeIdentity i d first).indexTree_eq _ fun he => hfirst l hmem he.symm]

/-- Placing the identities of some bindings adds them to the set. The key left
out as a repeat is that of the identity placed last. -/
theorem Places.placeAll (hl : l.Reads t) {facts : List Fact} (hfits : ∀ f ∈ facts, f.Fits t)
    (hp : ∀ j, placed j → t.IsIdentity j) (previous : Option Bytes)
    (hprevious : ∀ key, previous = some key → ∃ j, placed j ∧ key = Key.ofIdentity j)
    (h : l.Places placed tree) :
    ∃ tree' count, FactStore.placeAll l previous tree (facts.map Fact.entry) = (tree', .ok count) ∧
      l.Places (fun j => placed j ∨ History.Knows facts j) tree' := by
  induction facts generalizing previous tree placed with
  | nil => exact ⟨tree, 0, rfl, h.congr fun j => by simp⟩
  | cons f facts ih =>
    rw [List.forall_mem_cons] at hfits
    obtain ⟨hf, hrest⟩ := hfits
    have hkey : Key.identityPart f.entry.1 = Key.ofIdentity f.identity :=
      Key.identityPart_ofVersion _ _ _
    rw [List.map_cons, Fact.entry, FactStore.placeAll]
    rw [Fact.entry] at hkey
    dsimp only at hkey ⊢
    rw [hkey]
    split
    · rename_i hrepeat
      obtain ⟨j, hj, hjkey⟩ := hprevious _ hrepeat
      obtain rfl : f.identity = j := Key.ofIdentity_inj.mp hjkey
      obtain ⟨tree', count, heq, hplaces⟩ := ih hrest hp previous hprevious h
      refine ⟨tree', count, heq, hplaces.congr fun j => ?_⟩
      rw [History.knows_cons]
      constructor
      · rintro (hj' | hj')
        · exact .inl hj'
        · exact .inr (.inr hj')
      · rintro (hj' | rfl | hj')
        · exact .inl hj'
        · exact .inl hj
        · exact .inr hj'
    · rw [hl.positionOfIdentity_eq hf.1]
      have hp' : ∀ j, f.identity = j ∨ placed j → t.IsIdentity j := by
        rintro j (rfl | hj)
        · exact hf.1
        · exact hp j hj
      obtain ⟨tree', count, heq, hplaces⟩ := ih hrest hp' (some (Key.ofIdentity f.identity))
        (fun key hk => ⟨f.identity, .inl rfl, (Option.some.inj hk).symm⟩) (h.insert hl hp hf.1)
      refine ⟨tree', count + 1, ?_, hplaces.congr fun j => ?_⟩
      · dsimp only
        rw [heq]
        rfl
      · rw [History.knows_cons]
        constructor
        · rintro ((hj | hj) | hj)
          · exact .inr (.inl hj)
          · exact .inl hj
          · exact .inr (.inr hj)
        · rintro (hj | hj | hj)
          · exact .inl (.inr hj)
          · exact .inl (.inl hj)
          · exact .inr hj

end Layout

/-- The bindings of a tree that records a history are those of its facts in
some order. -/
theorem History.RecordedIn.exists_facts {h : History} {t : Table} {tree : FactTree}
    (hr : h.RecordedIn t tree) : ∃ facts : List Fact, tree.entries = facts.map Fact.entry ∧
      ∀ f, f ∈ facts → f ∈ h := by
  have hall : ∀ e ∈ tree.entries, ∃ f ∈ h, f.entry = e := fun e he => (hr.mem_entries e).mp he
  generalize tree.entries = entries at hall
  induction entries with
  | nil => exact ⟨[], rfl, by simp⟩
  | cons e entries ih =>
    rw [List.forall_mem_cons] at hall
    obtain ⟨⟨f, hf, rfl⟩, hrest⟩ := hall
    obtain ⟨facts, rfl, hfacts⟩ := ih hrest
    refine ⟨f :: facts, rfl, fun g hg => ?_⟩
    rcases List.mem_cons.mp hg with rfl | hg
    · exact hf
    · exact hfacts g hg

/-- Facts with the bindings of a tree tell the identities of the history that
is recorded in it. -/
theorem History.RecordedIn.knows_iff_of_entries_eq {h : History} {t : Table} {tree : FactTree}
    (hr : h.RecordedIn t tree) {facts : List Fact} (hentries : tree.entries = facts.map Fact.entry)
    (hfacts : ∀ f ∈ facts, f ∈ h) (i : Tuple) : History.Knows facts i ↔ h.Knows i := by
  constructor
  · rintro ⟨f, hf, rfl⟩
    exact ⟨f, hfacts f hf, rfl⟩
  · rintro ⟨f, hf, rfl⟩
    have hmem : f.entry ∈ tree.entries := (hr.mem_entries _).mpr ⟨f, hf, rfl⟩
    rw [hentries] at hmem
    obtain ⟨g, hg, he⟩ := List.mem_map.mp hmem
    exact ⟨g, hg, congrArg (StoredFact.identity ∘ Prod.snd) he⟩

/-- An index that is built in an empty tree is complete. -/
theorem FactStore.buildIndex_eq {s : FactStore} {d : Directory} {h : History} {l : Layout}
    (hr : h.RecordedIn s.table (s.facts d)) (hl : l.Reads s.table) (start : IndexTree)
    (hstart : start.isEmpty = true) :
    ∃ tree count, s.buildIndex d l start = (d.setIndexTree l.treeName tree, .ok count) ∧
      l.Places h.Knows tree := by
  obtain ⟨facts, hentries, hfacts⟩ := hr.exists_facts
  obtain ⟨tree, count, heq, hplaces⟩ := Layout.Places.placeAll hl
    (fun f hf => hr.fits f (hfacts f hf)) (by simp) none (by simp) (Layout.places_of_isEmpty hstart)
  refine ⟨tree, count, ?_, hplaces.congr fun j => ?_⟩
  · rw [FactStore.buildIndex, hentries, heq]
  · rw [false_or, hr.knows_iff_of_entries_eq hentries hfacts]

end Chronicle
