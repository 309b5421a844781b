import Chronicle.Proofs.Stores

/-!
# Stored histories

The facts that a tree holds make a history themselves, listed in the order of
their keys. It is recorded in the tree, and it tells the same versions as any
other history that is. Two directories look alike as of some blocks when each
identity has the same newest version there. An append of a later block leaves
a directory alike as of every block before it.
-/

namespace Chronicle

/-- The fact that a binding stands for. -/
def Fact.ofEntry? (e : Bytes × StoredFact) : Option Fact :=
  (Key.version? e.1).map fun (block, present) => ⟨e.2.identity, block, present, e.2.payload⟩

/-- The facts that are stored for a table, in the order of their keys. -/
def Directory.history (d : Directory) (table : String) : History :=
  (d.factTree table).entries.filterMap Fact.ofEntry?

/-- The stored history of a table depends on its fact tree alone. -/
theorem Directory.history_congr {d d' : Directory} {table : String}
    (h : d'.factTree table = d.factTree table) : d'.history table = d.history table := by
  rw [history, history, h]

/-- A table with stored facts is listed. -/
theorem Directory.mem_keys_of_mem_history {d : Directory} {table : String} {f : Fact}
    (hf : f ∈ d.history table) : table ∈ d.facts.keys := by
  cases hget : d.facts.get? table with
  | none =>
    rw [history, factTree, hget] at hf
    cases hf
  | some tree => exact List.mem_map.mpr ⟨_, SortedMap.get?_eq_some_iff.mp hget, rfl⟩

/-- A fact with the payload that is stored for it. -/
def Fact.stored (f : Fact) : Fact := { f with payload := f.version.payload }

theorem Fact.ofEntry?_entry (f : Fact) : Fact.ofEntry? f.entry = some f.stored := by
  rw [Fact.ofEntry?, Fact.entry, Key.version?_ofVersion]
  rfl

@[simp] theorem Fact.version_stored (f : Fact) : f.stored.version = f.version := by
  unfold Fact.version Fact.stored
  cases hpresent : f.present <;> simp [Fact.version, hpresent]

theorem Fact.entry_stored (f : Fact) : f.stored.entry = f.entry := by
  rw [Fact.entry, Fact.version_stored]
  rfl

theorem Fact.Fits.stored {f : Fact} {t : Table} (hf : f.Fits t) : f.stored.Fits t := by
  refine ⟨hf.1, fun hpresent => ?_⟩
  have hpresent : f.present = true := hpresent
  have hpayload : f.stored.payload = f.payload := by
    simp [Fact.stored, Fact.version, hpresent]
  rw [hpayload]
  exact hf.2 hpresent

namespace History

variable {h h' : History} {t : Table} {tree : FactTree}

/-- Of one identity and block there is one fact. -/
theorem RecordedIn.eq_of_block_eq (hr : h.RecordedIn t tree) {f g : Fact} (hf : f ∈ h) (hg : g ∈ h)
    (hidentity : f.identity = g.identity) (hblock : f.block = g.block) : f = g := by
  obtain ⟨a, ha, rfl⟩ := List.getElem_of_mem hf
  obtain ⟨b, hb, rfl⟩ := List.getElem_of_mem hg
  have hfalling := List.pairwise_iff_getElem.mp hr.newestFirst
  rcases Nat.lt_trichotomy a b with hab | rfl | hab
  · have hlt := hfalling a b ha hb hab hidentity
    rw [hblock] at hlt
    exact absurd hlt (UInt64.lt_irrefl _)
  · rfl
  · have hlt := hfalling b a hb ha hab hidentity.symm
    rw [hblock] at hlt
    exact absurd hlt (UInt64.lt_irrefl _)

/-- The facts of a tree are recorded in it. -/
theorem RecordedIn.history {d : Directory} {table : String}
    (hr : h.RecordedIn t (d.factTree table)) :
    (d.history table).RecordedIn t (d.factTree table) := by
  obtain ⟨facts, hentries, hfacts⟩ := hr.exists_facts
  have hstored : d.history table = facts.map Fact.stored := by
    rw [Directory.history, hentries, List.filterMap_map]
    have hread : Fact.ofEntry? ∘ Fact.entry = some ∘ Fact.stored :=
      funext fun f => Fact.ofEntry?_entry f
    rw [hread, List.filterMap_eq_map]
  have hascending := (d.factTree table).ascending
  rw [hentries, List.pairwise_map] at hascending
  rw [hstored]
  refine ⟨?_, ?_, fun e => ?_, ?_⟩
  · simp only [List.forall_mem_map]
    exact fun f hf => (hr.fits f (hfacts f hf)).stored
  · refine List.pairwise_map.mpr (hascending.imp_of_mem fun {f g} hf hg hlt he => ?_)
    have hidentity : f.identity = g.identity := he
    rw [Fact.entry, Fact.entry, hidentity, Key.compare_ofVersion] at hlt
    cases hblock : compare g.block f.block with
    | lt => exact Std.compare_eq_lt.mp hblock
    | eq =>
      -- The two would be one fact, which does not come before itself.
      have hsame := hr.eq_of_block_eq (hfacts f hf) (hfacts g hg) hidentity
        (Std.LawfulEqOrd.eq_of_compare hblock).symm
      rw [hsame, Std.ReflOrd.compare_self, Std.ReflOrd.compare_self] at hlt
      cases hlt
    | gt =>
      rw [hblock] at hlt
      cases hlt
  · rw [hentries, List.mem_map]
    constructor
    · rintro ⟨f, hf, rfl⟩
      exact ⟨f.stored, List.mem_map_of_mem hf, f.entry_stored⟩
    · rintro ⟨g, hg, rfl⟩
      obtain ⟨f, hf, rfl⟩ := List.mem_map.mp hg
      exact ⟨f, hf, f.entry_stored.symm⟩
  · rw [SortedMap.size, hentries, List.length_map, List.length_map]

/-- A tree tells one list of versions for each identity. -/
theorem RecordedIn.versions_eq (hr : h.RecordedIn t tree) (hr' : h'.RecordedIn t tree)
    (i : Tuple) : h.versions i = h'.versions i := by
  by_cases hi : t.IsIdentity i
  · have hall : ∀ g : History, g.RecordedIn t tree →
        tree.between (.including (Key.ofIdentity i))
            (.excluding (Key.identityEnd (Key.ofIdentity i))) =
          (g.filter (·.identity = i)).map Fact.entry := fun g hg => by
      rw [hg.held.between_eq i fun _ => true]
      · simp
      · intro f hf
        rw [Fact.entry, Key.between_all_iff (length_identity hi (hg.fits f hf).1)]
        simp
    have hentries := congrArg (List.map FactStore.readVersion)
      ((hall h hr).symm.trans (hall h' hr'))
    rw [List.map_map, List.map_map] at hentries
    have hread : FactStore.readVersion ∘ Fact.entry = Except.ok ∘ Fact.version :=
      funext fun f => readVersion_entry f
    rw [hread, ← List.map_map, ← List.map_map] at hentries
    exact (List.map_inj_right fun _ _ => Except.ok.inj).mp hentries
  · have hnone : ∀ g : History, g.RecordedIn t tree → g.versions i = [] := fun g hg => by
      rw [versions, List.map_eq_nil_iff, List.filter_eq_nil_iff]
      intro f hf he
      simp only [decide_eq_true_eq] at he
      exact hi (he ▸ (hg.fits f hf).1)
    rw [hnone h hr, hnone h' hr']

theorem RecordedIn.versionAt_congr (hr : h.RecordedIn t tree) (hr' : h'.RecordedIn t tree)
    (i : Tuple) (block : UInt64) : h.versionAt i block = h'.versionAt i block := by
  rw [versionAt, versionAt, hr.versions_eq hr']

/-- An identity is known exactly if it has a version. -/
theorem knows_iff_versions_ne_nil {i : Tuple} : h.Knows i ↔ h.versions i ≠ [] := by
  rw [versions, ne_eq, List.map_eq_nil_iff, List.filter_eq_nil_iff]
  simp [Knows]

theorem RecordedIn.knows_congr (hr : h.RecordedIn t tree) (hr' : h'.RecordedIn t tree)
    (i : Tuple) : h.Knows i ↔ h'.Knows i := by
  rw [knows_iff_versions_ne_nil, knows_iff_versions_ne_nil, hr.versions_eq hr']

/-- A fact of a later block is not seen. -/
theorem versionAt_cons_of_lt {f : Fact} {block : UInt64} (hblock : block < f.block) (i : Tuple) :
    versionAt (f :: h) i block = h.versionAt i block := by
  rw [versionAt, versionAt, versions, versions, List.filter_cons]
  split
  · have hlater : ¬f.version.block ≤ block := by
      rw [UInt64.not_le]
      exact hblock
    rw [List.map_cons, List.find?_cons_of_neg (by simpa using hlater)]
  · rfl

theorem versionAt_append_of_lt {f : Fact} {block : UInt64} (hblock : block < f.block) (i : Tuple) :
    (h.append t f).versionAt i block = h.versionAt i block := by
  rw [append]
  split
  · exact versionAt_cons_of_lt hblock i
  · rfl

/-- Blocks without a version between them see the same version. -/
theorem versionAt_eq_of_gap {block later : UInt64} {i : Tuple} (hle : block ≤ later)
    (hgap : ∀ f ∈ h, f.block ≤ block ∨ later < f.block) :
    h.versionAt i block = h.versionAt i later := by
  rw [versionAt, versionAt, ← List.head?_filter, ← List.head?_filter]
  refine congrArg List.head? (List.filter_congr fun v hv => ?_)
  obtain ⟨f, hf, rfl⟩ := List.mem_map.mp hv
  have hmem := (List.mem_filter.mp hf).1
  rw [decide_eq_decide, Fact.version]
  constructor
  · exact fun hb => UInt64.le_trans hb hle
  · intro hb
    rcases hgap f hmem with hb' | hb'
    · exact hb'
    · exact absurd hb (UInt64.not_le.mpr hb')

end History

/-- A store keeps the history of the stored facts. -/
theorem FactStore.Keeps.history {s : FactStore} {known : Index → Prop} {d : Directory}
    {h : History} (hk : s.Keeps known d h) : s.Keeps known d (d.history s.table.name) :=
  ⟨hk.sound, hk.recorded.history, hk.defined, fun hl =>
    (hk.complete hl).congr (hk.recorded.knows_congr hk.recorded.history)⟩

namespace Directory

variable {d d' d'' : Directory} {m m' m'' : UInt64}

/-- Whether each identity of each table has one newest version as of two
blocks of two directories. -/
def SameView (d : Directory) (m : UInt64) (d' : Directory) (m' : UInt64) : Prop :=
  ∀ table i, (d.history table).versionAt i m = (d'.history table).versionAt i m'

theorem SameView.refl : SameView d m d m := fun _ _ => rfl

theorem SameView.symm (h : SameView d m d' m') : SameView d' m' d m :=
  fun table i => (h table i).symm

theorem SameView.trans (h : SameView d m d' m') (h' : SameView d' m' d'' m'') :
    SameView d m d'' m'' := fun table i => (h table i).trans (h' table i)

/-- Directories with the same facts look alike. -/
theorem SameView.of_factTree (h : ∀ table, d'.factTree table = d.factTree table) :
    SameView d m d' m := fun table i => by
  rw [history, history, h]

/-- An append of a later block leaves a directory alike. -/
theorem SameView.append {s : FactStore} {h : History} (hs : s.Sound)
    (hr : h.RecordedIn s.table (s.facts d)) {f : Fact} (hblock : m < f.block) :
    SameView d m (s.append d f).1 m := by
  intro table i
  by_cases htable : table = s.table.name
  · subst htable
    have hafter := FactStore.recordedIn_append hs hr f
    rw [hr.history.versionAt_congr hr, hafter.history.versionAt_congr hafter,
      History.versionAt_append_of_lt hblock]
  · rw [history, history, (FactStore.append_frame s d f).1 table htable]

/-- A stored fact is one of the history, with the payload that is stored. -/
theorem exists_mem_of_mem_history {h : History} {t : Table} {table : String}
    (hr : h.RecordedIn t (d.factTree table)) {f : Fact} (hf : f ∈ d.history table) :
    ∃ g ∈ h, g.stored = f := by
  obtain ⟨e, he, hread⟩ := List.mem_filterMap.mp hf
  obtain ⟨g, hg, rfl⟩ := (hr.mem_entries e).mp he
  rw [Fact.ofEntry?_entry] at hread
  exact ⟨g, hg, Option.some.inj hread⟩

/-- A directory that has grown by facts of later blocks only. -/
structure GrownAfter (block : UInt64) (d d' : Directory) : Prop where
  /-- It looks alike as of the block. -/
  sameView : d.SameView block d' block
  /-- The head has not fallen. -/
  head_le : d.head ≤ d'.head
  /-- A new fact is of a later block. -/
  later : ∀ {table f}, f ∈ d'.history table →
    (∃ g ∈ d.history table, g.block = f.block) ∨ block < f.block

namespace GrownAfter

theorem refl : GrownAfter m d d :=
  ⟨.refl, UInt64.le_refl _, fun {_ f} hf => .inl ⟨f, hf, rfl⟩⟩

theorem trans (h : GrownAfter m d d') (h' : GrownAfter m d' d'') : GrownAfter m d d'' := by
  refine ⟨h.sameView.trans h'.sameView, UInt64.le_trans h.head_le h'.head_le, fun hf => ?_⟩
  obtain ⟨g, hg, hblock⟩ | hlater := h'.later hf
  · obtain ⟨g', hg', hblock'⟩ | hlater := h.later hg
    · exact .inl ⟨g', hg', hblock'.trans hblock⟩
    · exact .inr (hblock ▸ hlater)
  · exact .inr hlater

/-- A directory grows when its head is raised. -/
theorem advance (d : Directory) (block : UInt64) : GrownAfter m d (d.advance block) := by
  refine ⟨.of_factTree fun _ => rfl, ?_, fun {_ f} hf => .inl ⟨f, hf, rfl⟩⟩
  change d.head ≤ if d.head ≤ block then block else d.head
  split
  · assumption
  · exact UInt64.le_refl _

/-- A directory grows by an append of a later block. -/
theorem append {s : FactStore} (hs : s.Sound)
    (hr : (d.history s.table.name).RecordedIn s.table (s.facts d)) {f : Fact}
    (hblock : m < f.block) : GrownAfter m d (s.append d f).1 := by
  obtain ⟨hfacts, -, hhead⟩ := FactStore.append_frame s d f
  refine ⟨.append hs hr hblock, by rw [hhead]; exact UInt64.le_refl _, fun {table g} hg => ?_⟩
  by_cases htable : table = s.table.name
  · subst htable
    obtain ⟨g', hg', rfl⟩ := exists_mem_of_mem_history (FactStore.recordedIn_append hs hr f) hg
    rw [History.append] at hg'
    split at hg'
    · rcases List.mem_cons.mp hg' with rfl | hg'
      · exact .inr hblock
      · exact .inl ⟨g', hg', rfl⟩
    · exact .inl ⟨g', hg', rfl⟩
  · rw [history, hfacts table htable] at hg
    exact .inl ⟨g, hg, rfl⟩

end GrownAfter

end Directory
end Chronicle
