import Chronicle.Proofs.IndexTrees

/-!
# Stores

What each operation of a store does to a directory that records a history. An
append that is not accepted leaves everything as it was. An accepted one adds
one fact to the history and its identity to every registered index. Registering
or rebuilding an index changes its tree alone, and makes it complete.
-/

namespace Chronicle

open FactStore

/-- The verdict of an accepted append belongs to no other result. -/
theorem Verdict.ofOutcome?_eq_appended {r : Except Error AppendOutcome} :
    Verdict.ofOutcome? r = some .appended ↔ r = .ok .appended := by
  cases r with
  | error e => cases e <;> simp [Verdict.ofOutcome?]
  | ok outcome => cases outcome <;> simp [Verdict.ofOutcome?]

theorem History.RecordedIn.isEmpty_iff {h : History} {t : Table} {tree : FactTree}
    (hr : h.RecordedIn t tree) : tree.isEmpty = true ↔ h = [] := by
  rw [SortedMap.isEmpty, List.isEmpty_iff, ← List.length_eq_zero_iff, ← SortedMap.size, hr.size_eq,
    List.length_eq_zero_iff]

/-- An append adds the fact to the history or leaves the history as it is. -/
theorem History.append_of_appended {t : Table} {h : History} {f : Fact}
    (hj : h.judge t f = .appended) : h.append t f = f :: h := if_pos hj

theorem History.append_of_ne {t : Table} {h : History} {f : Fact}
    (hj : h.judge t f ≠ .appended) : h.append t f = h := if_neg hj

namespace FactStore

variable {s : FactStore} {d : Directory} {h : History} {t : Table}

/-- A store whose table has no flaw and whose layouts read its identities. -/
structure Sound (s : FactStore) : Prop where
  /-- The table has no flaw. -/
  table : s.table.Sound
  /-- Each layout is registered under its name. -/
  name_eq : ∀ {name l}, s.layouts.get? name = some l → l.name = name
  /-- Each layout reads the identities of the table. -/
  reads : ∀ {name l}, s.layouts.get? name = some l → l.Reads s.table

/-- A new store has its table and no layouts. -/
theorem ofTable_eq_ok : ofTable t = .ok s ↔ t.Sound ∧ s = ⟨t, .empty⟩ := by
  rw [← Table.validate_eq_ok, ofTable]
  cases t.validate with
  | error e => simp [bind, Except.bind]
  | ok _ => simp [bind, Except.bind, pure, Except.pure, eq_comm]

theorem sound_of_ofTable (hs : ofTable t = .ok s) : s.Sound := by
  obtain ⟨ht, rfl⟩ := ofTable_eq_ok.mp hs
  exact ⟨ht, by simp, by simp⟩

/-- The layout of a registered index is found under its name. -/
theorem layout_eq_ok {index : String} {l : Layout} :
    s.layout index = .ok l ↔ s.layouts.get? index = some l := by
  rw [layout]
  cases s.layouts.get? index <;> simp

theorem mem_values_iff {m : SortedMap String Layout} {l : Layout} :
    l ∈ m.values ↔ ∃ name, m.get? name = some l := by
  simp [SortedMap.values, SortedMap.get?_eq_some_iff]

namespace Sound

theorem reads_of_mem (hs : s.Sound) {l : Layout} (hl : l ∈ s.layouts.values) : l.Reads s.table := by
  obtain ⟨name, hname⟩ := mem_values_iff.mp hl
  exact hs.reads hname

/-- The trees of two layouts of a table differ with the names of the layouts. -/
theorem treeName_inj {a b : Layout} (ha : a.Reads t) (hb : b.Reads t) :
    a.treeName = b.treeName ↔ a.name = b.name := by
  rw [Layout.treeName, Layout.treeName, ha.table_eq, hb.table_eq, String.append_right_inj]

/-- The registered layouts have different trees. -/
theorem pairwise_treeName (hs : s.Sound) :
    s.layouts.values.Pairwise fun a b => a.treeName ≠ b.treeName := by
  refine List.pairwise_map.mpr (s.layouts.ascending.imp_of_mem fun {a b} ha hb hab he => ?_)
  have hga := SortedMap.get?_eq_some_iff.mpr ha
  have hgb := SortedMap.get?_eq_some_iff.mpr hb
  have hname := (treeName_inj (hs.reads hga) (hs.reads hgb)).mp he
  rw [hs.name_eq hga, hs.name_eq hgb] at hname
  rw [hname, Std.ReflOrd.compare_self] at hab
  cases hab

/-- A further layout may be registered under its name. -/
theorem insert (hs : s.Sound) {l : Layout} (hl : l.Reads s.table) :
    ({ s with layouts := s.layouts.insert l.name l } : FactStore).Sound := by
  refine ⟨hs.table, fun {name l'} h => ?_, fun {name l'} h => ?_⟩
  · obtain ⟨rfl, rfl⟩ | ⟨-, h⟩ := SortedMap.get?_insert_eq_some.mp h
    · rfl
    · exact hs.name_eq h
  · obtain ⟨rfl, rfl⟩ | ⟨-, h⟩ := SortedMap.get?_insert_eq_some.mp h
    · exact hl
    · exact hs.reads h

end Sound

/-- An append that the history does not accept changes nothing. -/
theorem append_of_ne (hr : h.RecordedIn s.table (s.facts d)) {f : Fact}
    (hj : h.judge s.table f ≠ .appended) :
    (s.append d f).1 = d ∧ Verdict.ofOutcome? (s.append d f).2 = some (h.judge s.table f) := by
  have hverdict := hr.judge_eq f
  rw [FactStore.append]
  cases hresult : s.judge d f with
  | error e =>
    rw [hresult] at hverdict
    exact ⟨rfl, hverdict⟩
  | ok outcome =>
    rw [hresult] at hverdict
    cases outcome with
    | unchanged => exact ⟨rfl, hverdict⟩
    | appended => exact absurd (Option.some.inj hverdict).symm hj

/-- An append that the history accepts places the identity in every registered
index and stores the version. -/
theorem append_of_appended (hs : s.Sound) (hr : h.RecordedIn s.table (s.facts d)) {f : Fact}
    (hj : h.judge s.table f = .appended) :
    s.append d f =
      (s.record (s.layouts.values.foldl (Layout.placeIdentity f.identity) d) f, .ok .appended) := by
  have hverdict := hr.judge_eq f
  rw [hj, Verdict.ofOutcome?_eq_appended] at hverdict
  have hfits := (History.block_lt_of_judge hj hr.newestFirst).1
  rw [FactStore.append, hverdict]
  dsimp only
  rw [Layout.indexAll_eq (fun l hl => hs.reads_of_mem hl) hfits.1]

/-- The verdict of an append is that of the history. -/
theorem ofOutcome?_append (hs : s.Sound) (hr : h.RecordedIn s.table (s.facts d)) (f : Fact) :
    Verdict.ofOutcome? (s.append d f).2 = some (h.judge s.table f) := by
  by_cases hj : h.judge s.table f = .appended
  · rw [append_of_appended hs hr hj, hj]
    rfl
  · exact (append_of_ne hr hj).2

/-- An append changes the facts of its table, the trees of the registered
layouts, and nothing else, whatever the directory holds. -/
theorem append_frame (s : FactStore) (d : Directory) (f : Fact) :
    (∀ other, other ≠ s.table.name → (s.append d f).1.factTree other = d.factTree other) ∧
      (∀ name, (∀ l ∈ s.layouts.values, name ≠ l.treeName) →
        (s.append d f).1.indexTree name = d.indexTree name) ∧
      (s.append d f).1.head = d.head := by
  have hframe := Layout.reindexed_indexAll f.identity s.layouts.values d
  have htrees : ∀ name, (∀ l ∈ s.layouts.values, name ≠ l.treeName) →
      (indexAll f.identity d s.layouts.values).1.indexTree name = d.indexTree name :=
    fun name hn => hframe.indexTree_eq name fun ⟨l, hl, he⟩ => hn l hl he
  rw [FactStore.append]
  cases s.judge d f with
  | error e => exact ⟨fun _ _ => rfl, fun _ _ => rfl, rfl⟩
  | ok outcome =>
    cases outcome with
    | unchanged => exact ⟨fun _ _ => rfl, fun _ _ => rfl, rfl⟩
    | appended =>
      cases hindexed : indexAll f.identity d s.layouts.values with
      | mk d' r =>
        rw [hindexed] at hframe htrees
        cases r with
        | error e => exact ⟨fun other _ => hframe.factTree_eq other, htrees, hframe.head_eq⟩
        | ok _ =>
          refine ⟨fun other ho => ?_, htrees, hframe.head_eq⟩
          exact (Directory.factTree_setFactTree_of_ne _ ho _).trans (hframe.factTree_eq other)

/-- After an append the facts of the table are those of the history after it. -/
theorem recordedIn_append (hs : s.Sound) (hr : h.RecordedIn s.table (s.facts d)) (f : Fact) :
    (h.append s.table f).RecordedIn s.table (s.facts (s.append d f).1) := by
  by_cases hj : h.judge s.table f = .appended
  · have hframe := Layout.reindexed_foldl_placeIdentity f.identity s.layouts.values d
    have hfacts : s.facts (s.layouts.values.foldl (Layout.placeIdentity f.identity) d) =
        s.facts d := hframe.factTree_eq s.table.name
    rw [append_of_appended hs hr hj, History.append_of_appended hj, record, hfacts, facts,
      Directory.factTree_setFactTree_self]
    exact hr.cons hj
  · rw [(append_of_ne hr hj).1, History.append_of_ne hj]
    exact hr

/-- An accepted append adds the identity to the tree of every registered index. -/
theorem places_append_of_appended (hs : s.Sound) (hr : h.RecordedIn s.table (s.facts d)) {f : Fact}
    (hj : h.judge s.table f = .appended) {name : String} {l : Layout}
    (hl : s.layouts.get? name = some l) {placed : Tuple → Prop} (hp : ∀ j, placed j → h.Knows j)
    (hplaces : l.Places placed (d.indexTree l.treeName)) :
    l.Places (fun j => f.identity = j ∨ placed j) ((s.append d f).1.indexTree l.treeName) := by
  have hfits := (History.block_lt_of_judge hj hr.newestFirst).1
  have hreads : ∀ l ∈ s.layouts.values, l.Reads s.table := fun l hl => hs.reads_of_mem hl
  have hmem : l ∈ s.layouts.values := mem_values_iff.mpr ⟨name, hl⟩
  rw [append_of_appended hs hr hj, record, Directory.indexTree_setFactTree]
  exact Layout.Places.foldl_placeIdentity hreads hs.pairwise_treeName
    (fun j hj => hr.isIdentity (hp j hj)) hfits.1 hmem hplaces

/-- After an append a registered index that was complete is complete again. -/
theorem places_append (hs : s.Sound) (hr : h.RecordedIn s.table (s.facts d)) (f : Fact)
    {name : String} {l : Layout} (hl : s.layouts.get? name = some l)
    (hplaces : l.Places h.Knows (d.indexTree l.treeName)) :
    l.Places (h.append s.table f).Knows ((s.append d f).1.indexTree l.treeName) := by
  by_cases hj : h.judge s.table f = .appended
  · have hplaced := places_append_of_appended hs hr hj hl (fun _ hk => hk) hplaces
    rw [History.append_of_appended hj]
    refine hplaced.congr fun j => ?_
    rw [History.knows_cons]
  · rw [(append_of_ne hr hj).1, History.append_of_ne hj]
    exact hplaces

/-- An index that does not compile is not registered. -/
theorem registerIndex_of_error {i : Index} {e : Error} (hi : i.compile s.table = .error e) :
    s.registerIndex d i = (d, .error e) := by
  rw [registerIndex, hi]

/-- Registering an index that compiles may change its tree alone, whatever the
directory holds. If it succeeds the store has the layout under its name. -/
theorem registerIndex_frame {i : Index} {l : Layout} (hi : i.compile s.table = .ok l) :
    d.Reindexed (· = l.treeName) (s.registerIndex d i).1 ∧
      ∀ s' l', (s.registerIndex d i).2 = .ok (s', l') →
        s' = { s with layouts := s.layouts.insert i.name l } ∧ l' = l := by
  rw [registerIndex, hi]
  dsimp only
  split
  · refine ⟨.setIndexTree d _ _, fun s' l' hok => ?_⟩
    cases hcount : (s.buildIndex d l (d.indexTree l.treeName)).2 with
    | error e => simp [hcount, Except.map] at hok
    | ok count =>
      simp only [hcount, Except.map, Except.ok.injEq, Prod.mk.injEq] at hok
      exact ⟨hok.1.symm, hok.2.symm⟩
  · refine ⟨.refl, fun s' l' hok => ?_⟩
    simp only [Except.ok.injEq, Prod.mk.injEq] at hok
    exact ⟨hok.1.symm, hok.2.symm⟩

/-- An index with entries is registered as it is. -/
theorem registerIndex_of_nonempty {i : Index} {l : Layout} (hi : i.compile s.table = .ok l)
    (hd : (d.indexTree l.treeName).isEmpty = false) :
    s.registerIndex d i = (d, .ok ({ s with layouts := s.layouts.insert i.name l }, l)) := by
  rw [registerIndex, hi]
  dsimp only
  rw [hd, Bool.false_and, if_neg (by simp)]

/-- An index that compiles is registered. Its tree alone may change, and is
complete afterwards if it was empty or complete before. -/
theorem registerIndex_of_ok (hs : s.Sound) (hr : h.RecordedIn s.table (s.facts d)) {i : Index}
    {l : Layout} (hi : i.compile s.table = .ok l) :
    ∃ d', s.registerIndex d i =
        (d', .ok ({ s with layouts := s.layouts.insert i.name l }, l)) ∧
      d.Reindexed (· = l.treeName) d' ∧
      (l.Places h.Knows (d.indexTree l.treeName) ∨ (d.indexTree l.treeName).isEmpty = true →
        l.Places h.Knows (d'.indexTree l.treeName)) := by
  obtain ⟨-, -, hreads⟩ := Index.reads_of_compile hs.table hi
  rw [registerIndex, hi]
  dsimp only
  split
  · rename_i hbuild
    rw [Bool.and_eq_true] at hbuild
    obtain ⟨tree, count, heq, hplaces⟩ := buildIndex_eq hr hreads _ hbuild.1
    refine ⟨d.setIndexTree l.treeName tree, ?_,
      .setIndexTree d _ tree, fun _ => ?_⟩
    · rw [heq]
      rfl
    · rw [Directory.indexTree_setIndexTree_self]
      exact hplaces
  · rename_i hbuild
    refine ⟨d, rfl, .refl, ?_⟩
    rintro (hplaces | hempty)
    · exact hplaces
    · -- There are no facts, so the empty tree is complete.
      have hnil : h = [] := by
        rw [← hr.isEmpty_iff]
        simpa [hempty] using hbuild
      subst hnil
      exact (Layout.places_of_isEmpty hempty).congr fun j => by simp

/-- Rebuilding a registered index may change its tree alone, whatever the
directory holds. -/
theorem rebuildIndex_frame {index : String} {l : Layout} (hl : s.layouts.get? index = some l) :
    d.Reindexed (· = l.treeName) (s.rebuildIndex d index).1 := by
  rw [rebuildIndex, layout_eq_ok.mpr hl]
  exact .setIndexTree d _ _

/-- Rebuilding a registered index changes its tree alone, and makes it
complete. -/
theorem rebuildIndex_of_ok (hs : s.Sound) (hr : h.RecordedIn s.table (s.facts d)) {index : String}
    {l : Layout} (hl : s.layouts.get? index = some l) :
    ∃ d' count, s.rebuildIndex d index = (d', .ok count) ∧
      d.Reindexed (· = l.treeName) d' ∧ l.Places h.Knows (d'.indexTree l.treeName) := by
  obtain ⟨tree, count, heq, hplaces⟩ := buildIndex_eq hr (hs.reads hl) .empty rfl
  refine ⟨d.setIndexTree l.treeName tree, count, ?_,
    .setIndexTree d _ tree, ?_⟩
  · rw [rebuildIndex, layout_eq_ok.mpr hl]
    exact heq
  · rw [Directory.indexTree_setIndexTree_self]
    exact hplaces

/-- There is nothing to rebuild for an index that is not registered. -/
theorem rebuildIndex_of_none {index : String} (hl : s.layouts.get? index = none) :
    s.rebuildIndex d index = (d, .error (.unknownIndex index)) := by
  rw [rebuildIndex, layout, hl]

/-- A store in order on a directory that records a history. Every registered
index is complete and was compiled from a known definition. -/
structure Keeps (s : FactStore) (known : Index → Prop) (d : Directory) (h : History) : Prop where
  /-- The store is in order. -/
  sound : s.Sound
  /-- The fact tree holds the history. -/
  recorded : h.RecordedIn s.table (s.facts d)
  /-- Each layout comes from a known definition of its name. -/
  defined : ∀ {name l}, s.layouts.get? name = some l →
    ∃ i, known i ∧ i.name = name ∧ i.compile s.table = .ok l
  /-- Each registered index holds the identities of the history. -/
  complete : ∀ {name l}, s.layouts.get? name = some l →
    l.Places h.Knows (d.indexTree l.treeName)

namespace Keeps

variable {known : Index → Prop}

/-- A new store keeps the empty history of a table without facts. -/
theorem ofTable (hs : FactStore.ofTable t = .ok s) (hd : d.factTree t.name = .empty) :
    s.Keeps known d [] := by
  have hsound := sound_of_ofTable hs
  obtain ⟨-, rfl⟩ := ofTable_eq_ok.mp hs
  refine ⟨hsound, ?_, by simp, by simp⟩
  rw [FactStore.facts, hd]
  exact History.recordedIn_nil t

/-- A store is not concerned by changes of other trees. -/
theorem of_frame (hk : s.Keeps known d h) {d' : Directory}
    (hfacts : d'.factTree s.table.name = d.factTree s.table.name)
    (htrees : ∀ {name l}, s.layouts.get? name = some l →
      d'.indexTree l.treeName = d.indexTree l.treeName) : s.Keeps known d' h := by
  refine ⟨hk.sound, ?_, hk.defined, fun hl => ?_⟩
  · rw [facts, hfacts]
    exact hk.recorded
  · rw [htrees hl]
    exact hk.complete hl

theorem mono (hk : s.Keeps known d h) {more : Index → Prop} (hmore : ∀ i, known i → more i) :
    s.Keeps more d h :=
  ⟨hk.sound, hk.recorded, fun hl =>
    (hk.defined hl).imp fun i hi => ⟨hmore i hi.1, hi.2⟩, hk.complete⟩

/-- An append keeps the history that it extends. -/
theorem append (hk : s.Keeps known d h) (f : Fact) :
    s.Keeps known (s.append d f).1 (h.append s.table f) :=
  ⟨hk.sound, recordedIn_append hk.sound hk.recorded f, hk.defined, fun hl =>
    places_append hk.sound hk.recorded f hl (hk.complete hl)⟩

/-- Rebuilding a registered index leaves every tree of the store as it was,
since a set of identities has one tree. -/
theorem rebuild (hk : s.Keeps known d h) (index : String) :
    s.Keeps known (s.rebuildIndex d index).1 h := by
  cases hl : s.layouts.get? index with
  | none =>
    rw [rebuildIndex_of_none hl]
    exact hk
  | some l =>
    obtain ⟨d', count, heq, hframe, hplaces⟩ := rebuildIndex_of_ok hk.sound hk.recorded hl
    rw [heq]
    refine hk.of_frame (hframe.factTree_eq _) fun {name l'} hl' => ?_
    by_cases hname : l'.treeName = l.treeName
    · -- The two layouts have one name, so they are the same layout.
      have hnames := (Sound.treeName_inj (hk.sound.reads hl') (hk.sound.reads hl)).mp hname
      rw [hk.sound.name_eq hl', hk.sound.name_eq hl] at hnames
      rw [hnames, hl] at hl'
      cases hl'
      exact hplaces.unique (hk.complete hl)
    · exact hframe.indexTree_eq _ hname

/-- Registering a known definition keeps the history, if its name stands for
one definition and its tree is empty until it is registered. -/
theorem register (hk : s.Keeps known d h)
    (hunique : ∀ i j, known i → known j → i.name = j.name → i = j) {i : Index} (hi : known i)
    {l : Layout} (hl : i.compile s.table = .ok l)
    (hnew : s.layouts.get? i.name = none → (d.indexTree l.treeName).isEmpty = true) :
    ∃ d', s.registerIndex d i = (d', .ok ({ s with layouts := s.layouts.insert i.name l }, l)) ∧
      d.Reindexed (· = l.treeName) d' ∧
      ({ s with layouts := s.layouts.insert i.name l } : FactStore).Keeps known d' h := by
  obtain ⟨hname, -, hreads⟩ := Index.reads_of_compile hk.sound.table hl
  obtain ⟨d', heq, hframe, hplaces⟩ := registerIndex_of_ok hk.sound hk.recorded hl
  have hcomplete : l.Places h.Knows (d'.indexTree l.treeName) := by
    refine hplaces ?_
    cases hold : s.layouts.get? i.name with
    | none => exact .inr (hnew hold)
    | some l' =>
      obtain ⟨j, hj, hjname, hjl⟩ := hk.defined hold
      obtain rfl : j = i := hunique j i hj hi hjname
      rw [hl] at hjl
      cases hjl
      exact .inl (hk.complete hold)
  refine ⟨d', heq, hframe, hname ▸ hk.sound.insert hreads, ?_, fun {name l'} hl' => ?_,
    fun {name l'} hl' => ?_⟩
  · rw [facts, hframe.factTree_eq]
    exact hk.recorded
  · obtain ⟨rfl, rfl⟩ | ⟨-, hl'⟩ := SortedMap.get?_insert_eq_some.mp hl'
    · exact ⟨i, hi, rfl, hl⟩
    · exact hk.defined hl'
  · obtain ⟨rfl, rfl⟩ | ⟨hsame, hl'⟩ := SortedMap.get?_insert_eq_some.mp hl'
    · exact hcomplete
    · rw [hframe.indexTree_eq _ fun he => hsame ?_]
      · exact hk.complete hl'
      · have hnames := (Sound.treeName_inj (hk.sound.reads hl') hreads).mp he
        rwa [hk.sound.name_eq hl', hname] at hnames

end Keeps

end FactStore
end Chronicle
