import Chronicle.Proofs.Outlooks
import Chronicle.Proofs.StoredIdentities
import Chronicle.Proofs.VisibleHistories

/-!
# Concurrent reads

A page is read while appends go on. An append places its identity in one index
after the other, in any order, and then stores its version; it may stop for
good before that. The steps of the page and of the appends interleave in any
way. An identity that was placed while the page is read has nothing to show as
of the block of the page, and a later version is not seen there, so no step of
an append changes the outlook of the page. This takes stores whose indexes do
not share a tree.
-/

namespace Chronicle

open FactStore

namespace FactStore

variable {s s' : FactStore} {d : Directory} {i : Tuple} {block : UInt64}

/-- Whether the stored versions can be read. -/
def Readable (s : FactStore) (d : Directory) : Prop :=
  ∀ i, s.table.IsIdentity i → ∃ versions, s.versionsOf d i = .ok versions

/-- Whether the tree of a layout maps the place of each stored identity to it. -/
def Maps (s : FactStore) (d : Directory) (l : Layout) : Prop :=
  ∀ i position, s.Stores d i → l.positionOfIdentity i = .ok position →
    (d.indexTree l.treeName).get? position = some i

theorem readable_of_recordedIn {h : History} (hr : h.RecordedIn s.table (s.facts d)) :
    s.Readable d := fun i hi => ⟨h.versions i, hr.versionsOf_eq hi⟩

/-- The versions up to a block are among all versions. -/
theorem mem_versionEntries_of_snapshot {key : Bytes} {e : Bytes × StoredFact}
    (he : e ∈ s.versionEntries d (Key.snapshotStart key block) key) :
    e ∈ s.versionEntries d key key := by
  rw [versionEntries, SortedMap.mem_between] at he ⊢
  obtain ⟨hmem, hstart, hend⟩ := he
  refine ⟨hmem, ?_, hend⟩
  simp only [SortedMap.Endpoint.admitsAbove] at hstart ⊢
  have hkey : (compare key (Key.snapshotStart key block)).isLE = true := by
    rw [Key.snapshotStart, Key.lt_ofVersion]
    rfl
  exact Std.TransCmp.isLE_trans hkey hstart

/-- An identity that is not stored has no version as of any block. -/
theorem Readable.versionAt_eq_none (h : s.Readable d) (hi : s.table.IsIdentity i)
    (hs : ¬s.Stores d i) : s.versionAt d i block = .ok none := by
  obtain ⟨versions, hversions⟩ := h i hi
  have hnil : versions = [] := by
    cases versions with
    | nil => rfl
    | cons newest older => exact absurd ⟨newest, older, hversions⟩ hs
  rw [hnil, versionsOf, Table.checkIdentity_eq_ok.mpr hi] at hversions
  have hentries : s.versionEntries d (Key.ofIdentity i) (Key.ofIdentity i) = [] := by
    cases hall : s.versionEntries d (Key.ofIdentity i) (Key.ofIdentity i) with
    | nil => rfl
    | cons e entries =>
      simp only [bind, Except.bind, hall, List.mapM_cons, pure, Except.pure] at hversions
      split at hversions
      · cases hversions
      · split at hversions <;> cases hversions
  have hsnapshot : s.versionEntries d (Key.snapshotStart (Key.ofIdentity i) block)
      (Key.ofIdentity i) = [] := by
    rw [List.eq_nil_iff_forall_not_mem]
    intro e he
    have hmem := mem_versionEntries_of_snapshot he
    rw [hentries] at hmem
    cases hmem
  rw [versionAt, Table.checkIdentity_eq_ok.mpr hi]
  dsimp only [bind, Except.bind]
  rw [hsnapshot]
  rfl

/-- The versions of a table depend on its facts alone. -/
theorem versionAt_of_facts_eq {d' : Directory} (h : s.facts d' = s.facts d) (i : Tuple)
    (block : UInt64) : s.versionAt d' i block = s.versionAt d i block := by
  simp only [versionAt, versionEntries, h]

/-- A version of a later block is not seen, in whatever table it is stored. -/
theorem versionAt_record_of_lt (htable : s.table.name = s'.table.name → s.table = s'.table)
    {f : Fact} (hf : s'.table.IsIdentity f.identity) (hblock : block < f.block) (i : Tuple) :
    s.versionAt (s'.record d f) i block = s.versionAt d i block := by
  rw [versionAt, versionAt]
  cases hcheck : s.table.checkIdentity i with
  | error e => rfl
  | ok _ =>
    have hi := Table.checkIdentity_eq_ok.mp hcheck
    suffices hentries : s.versionEntries (s'.record d f)
        (Key.snapshotStart (Key.ofIdentity i) block) (Key.ofIdentity i) =
          s.versionEntries d (Key.snapshotStart (Key.ofIdentity i) block) (Key.ofIdentity i) by
      dsimp only [bind, Except.bind]
      rw [hentries]
    by_cases hname : s.table.name = s'.table.name
    · rw [← htable hname] at hf
      have hlater := (not_congr (Key.between_snapshot_iff (History.length_identity hi hf)
        (b := f.block) (m := block) (p := f.present))).mpr
          fun hseen => UInt64.not_le.mpr hblock hseen.2
      have hfacts : s.facts (s'.record d f) = (s.facts d).insert
          (Key.ofVersion (Key.ofIdentity f.identity) f.block f.present)
          ⟨f.identity, storedPayload f⟩ := by
        rw [facts, record, facts, facts, hname, Directory.factTree_setFactTree_self]
      rw [versionEntries, versionEntries, hfacts]
      refine SortedMap.eq_of_ascending_of_mem_iff (SortedMap.pairwise_between ..)
        (SortedMap.pairwise_between ..) fun e => ?_
      rw [SortedMap.mem_between, SortedMap.mem_between, SortedMap.mem_entries_insert]
      constructor
      · rintro ⟨rfl | ⟨-, hmem⟩, hbounds⟩
        · exact absurd hbounds hlater
        · exact ⟨hmem, hbounds⟩
      · rintro ⟨hmem, hbounds⟩
        exact ⟨.inr ⟨fun he => hlater (he ▸ hbounds), hmem⟩, hbounds⟩
    · rw [versionEntries, versionEntries, facts, facts, record,
        Directory.factTree_setFactTree_of_ne d hname]

end FactStore

/-- An append after its checks. -/
structure AppendProgress where
  /-- The store. -/
  store : FactStore
  /-- The fact. -/
  fact : Fact
  /-- The indexes in which the identity is still to be placed. -/
  pending : List Layout
  /-- Whether the append stops for good before the version is stored. -/
  stops : Bool

namespace AppendProgress

variable {a : AppendProgress} {d : Directory}

/-- One step of an append, and what is left of it. -/
def step (a : AppendProgress) (d : Directory) : Directory × Option AppendProgress :=
  match a.pending with
  | l :: rest =>
    match indexIdentity a.fact.identity d l with
    | .error _ => (d, none)
    | .ok d => (d, some { a with pending := rest })
  | [] => (if a.stops then d else a.store.record d a.fact, none)

/-- A step that leaves something of an append leaves fewer indexes. -/
theorem pending_step {d' : Directory} {a' : AppendProgress} (h : a.step d = (d', some a')) :
    a'.pending.length < a.pending.length := by
  rw [step] at h
  split at h
  · rename_i l rest hpending
    split at h
    · cases h
    · cases h
      rw [hpending]
      exact Nat.lt_succ_self _
  · cases h

/-- All steps of an append, with nothing between them. -/
def run (a : AppendProgress) (d : Directory) : Directory :=
  match _h : a.step d with
  | (d, none) => d
  | (d, some a) => a.run d
termination_by a.pending.length
decreasing_by exact pending_step _h

theorem run_of_step {d' : Directory} {left : Option AppendProgress}
    (h : a.step d = (d', left)) : a.run d = left.elim d' fun a' => a'.run d' := by
  rw [run]
  split
  all_goals
    rename_i heq
    rw [h] at heq
    cases heq
    rfl

/-- Placing the identity in the pending indexes comes before storing the
version. -/
theorem run_eq (s : FactStore) (f : Fact) (pending : List Layout) (d : Directory) :
    (mk s f pending false).run d =
      match indexAll f.identity d pending with
      | (d, .error _) => d
      | (d, .ok _) => s.record d f := by
  induction pending generalizing d with
  | nil => exact run_of_step rfl
  | cons l rest ih =>
    rw [indexAll]
    cases hl : indexIdentity f.identity d l with
    | error e =>
      have hstep : (mk s f (l :: rest) false).step d = (d, none) := by simp only [step, hl]
      exact run_of_step hstep
    | ok d' =>
      have hstep : (mk s f (l :: rest) false).step d = (d', some (mk s f rest false)) := by
        simp only [step, hl]
      exact (run_of_step hstep).trans (ih d')

/-- An append that passes its checks is all its steps. -/
theorem append_eq_run {s : FactStore} {f : Fact} (h : s.judge d f = .ok .appended) :
    (s.append d f).1 = (mk s f s.layouts.values false).run d := by
  rw [run_eq, FactStore.append, h]
  dsimp only
  cases indexAll f.identity d s.layouts.values with
  | mk d' r => cases r <;> rfl

end AppendProgress

namespace RangeSource

variable {source : RangeSource} {d : Directory} {block : UInt64}

/-- The stores that a source reads. -/
def stores (source : RangeSource) : List FactStore :=
  source.store :: (source.join.map (·.second)).toList

/-- Whether the stores of a source are in order and keep apart: one name stands
for one table, and no index shares the tree that is walked. -/
structure Apart (source : RangeSource) : Prop where
  /-- Each store is in order. -/
  sound : ∀ s ∈ source.stores, s.Sound
  /-- The index that is walked is registered. -/
  registered : source.layout ∈ source.store.layouts.values
  /-- One name stands for one table. -/
  table_eq : ∀ s ∈ source.stores, ∀ s' ∈ source.stores, s.table.name = s'.table.name →
    s.table = s'.table
  /-- No other index has the tree that is walked. -/
  layout_eq : ∀ s ∈ source.stores, ∀ l ∈ s.layouts.values,
    l.treeName = source.layout.treeName → l = source.layout ∧ s.table = source.store.table

theorem store_mem_stores (source : RangeSource) : source.store ∈ source.stores :=
  List.mem_cons_self ..

theorem second_mem_stores {join : JoinSource} (hj : source.join = some join) :
    join.second ∈ source.stores := by
  simp [stores, hj]

/-- The table of a source that is ready can be read. -/
theorem Ready.readable (h : source.Ready d) : source.store.Readable d := by
  obtain ⟨known, hkeeps⟩ := h.keeps
  exact readable_of_recordedIn hkeeps.recorded

/-- The index of a source that is ready maps places to the stored identities. -/
theorem Ready.maps (h : source.Ready d) : source.store.Maps d source.layout := by
  obtain ⟨known, hkeeps⟩ := h.keeps
  obtain ⟨index, hl⟩ := h.registered
  have hindexes := (hkeeps.recorded.indexes_iff (hkeeps.sound.reads hl)).mpr (hkeeps.complete hl)
  exact fun i position hi hposition => (hindexes position i).mpr ⟨hi, hposition⟩

theorem Apart.reads (h : source.Apart) : source.layout.Reads source.store.table :=
  (h.sound _ source.store_mem_stores).reads_of_mem h.registered

end RangeSource

/-- The sources of a database in order keep apart, if no two indexes share a
tree. -/
theorem Database.InOrder.apart {db : Database} (h : db.InOrder) (hsep : db.catalog.Separate)
    {q : PreparedQuery} {source : RangeSource} (hsource : db.rangeSource q = .ok source) :
    source.Apart := by
  obtain ⟨hstore, hlayout, -, hseconds⟩ := Database.rangeSource_eq_ok hsource
  have hknown : ∀ s ∈ source.stores, db.stores.get? s.table.name = some s := by
    intro s hs
    have hfound : ∃ name, db.stores.get? name = some s := by
      obtain rfl | hs := List.mem_cons.mp hs
      · exact ⟨_, hstore⟩
      · rw [Option.mem_toList, Option.map_eq_some_iff] at hs
        obtain ⟨join, hj, rfl⟩ := hs
        exact ⟨_, hseconds join hj⟩
    obtain ⟨name, hname⟩ := hfound
    rwa [h.table_name hname]
  have hown := hknown _ source.store_mem_stores
  refine ⟨fun s hs => (h.keeps (hknown s hs)).sound, mem_values_iff.mpr ⟨_, hlayout⟩,
    fun s hs s' hs' hname => ?_, fun s hs l hl htree => ?_⟩
  · have hsame := hknown s hs
    rw [hname, hknown s' hs'] at hsame
    rw [Option.some.inj hsame]
  · obtain ⟨index, hl⟩ := mem_values_iff.mp hl
    by_cases hname : s.table.name = source.store.table.name
    · have hsame := hknown s hs
      rw [hname, hown] at hsame
      obtain rfl := Option.some.inj hsame
      -- The two layouts of one table have one name.
      have hsound := (h.keeps hown).sound
      have hnames := (Sound.treeName_inj (hsound.reads hl) (hsound.reads hlayout)).mp htree
      rw [hsound.name_eq hl, hsound.name_eq hlayout] at hnames
      rw [hnames, hlayout] at hl
      exact ⟨(Option.some.inj hl).symm, rfl⟩
    · exact absurd htree (h.treeName_ne hsep hname hown (hknown s hs) hlayout hl)

/-- What may happen while a page is read. -/
inductive ReadEvent where
  /-- The page takes a step. -/
  | read
  /-- An append is checked. If it goes on it is to place its identity in some
  indexes, and may be going to stop for good before its version is stored. -/
  | check (store : FactStore) (fact : Fact) (order : List Layout) (stops : Bool)
  /-- The append of a number takes a step. -/
  | advance (append : Nat)

/-- Whether an event concerns no version up to a block of a source: an append
is one to a store of the source, with all its indexes in some order, and is of
a later block or stops for good before its version is stored. -/
def ReadEvent.Admissible (source : RangeSource) (block : UInt64) : ReadEvent → Prop
  | .check s f order stops =>
    s ∈ source.stores ∧ order.Perm s.layouts.values ∧ (block < f.block ∨ stops = true)
  | _ => True

instance (source : RangeSource) (block : UInt64) :
    (e : ReadEvent) → Decidable (e.Admissible source block)
  | .check .. => inferInstanceAs (Decidable (_ ∧ _ ∧ _))
  | .read | .advance _ => .isTrue trivial

/-- A page that is read while appends go on. -/
structure ConcurrentRead where
  /-- What is stored. -/
  directory : Directory
  /-- The page so far. -/
  reader : Except Error PageProgress
  /-- The appends on their way. -/
  appends : List AppendProgress

namespace ConcurrentRead

variable {source : RangeSource} {block : UInt64} {limit : Nat} {x : ConcurrentRead}
  {a : AppendProgress} {d d' : Directory}

/-- What an event leaves. -/
def event (source : RangeSource) (block : UInt64) (limit : Nat) (x : ConcurrentRead) :
    ReadEvent → ConcurrentRead
  | .read => { x with reader := x.reader.bind (PageProgress.step source block limit x.directory) }
  | .check s f order stops =>
    match s.judge x.directory f with
    | .ok .appended => { x with appends := x.appends ++ [⟨s, f, order, stops⟩] }
    | _ => x
  | .advance n =>
    match x.appends[n]? with
    | none => x
    | some a =>
      match a.step x.directory with
      | (d, none) => { x with directory := d, appends := x.appends.eraseIdx n }
      | (d, some a) => { x with directory := d, appends := x.appends.set n a }

/-- What some events leave. -/
def run (source : RangeSource) (block : UInt64) (limit : Nat) (x : ConcurrentRead)
    (events : List ReadEvent) : ConcurrentRead :=
  events.foldl (event source block limit) x

/-- What the page has returned, if it has come to its end. -/
def returned (x : ConcurrentRead) : Option (Except Error (List Row × Option Tuple)) :=
  match x.reader with
  | .error e => some (.error e)
  | .ok p =>
    match p.stage with
    | .finished more => some (.ok (p.rows, more))
    | _ => none

/-- What the page is going to return if no append goes on. -/
def outlook (source : RangeSource) (block : UInt64) (limit : Nat) (x : ConcurrentRead) :
    Except Error (List Row × Option Tuple) :=
  x.reader.bind (PageProgress.outlook source block limit x.directory)

/-- What a page has returned is its outlook. -/
theorem eq_outlook_of_returned {shown : Except Error (List Row × Option Tuple)}
    (h : x.returned = some shown) : shown = x.outlook source block limit := by
  rw [returned] at h
  rw [outlook]
  cases hreader : x.reader with
  | error e =>
    rw [hreader] at h
    exact (Option.some.inj h).symm
  | ok p =>
    rw [hreader] at h
    dsimp only at h
    split at h
    · rename_i more hstage
      simp only [Except.bind, PageProgress.outlook, hstage]
      exact (Option.some.inj h).symm
    · cases h

/-- Whether an append concerns no version up to a block of a source. -/
structure Harmless (source : RangeSource) (block : UInt64) (a : AppendProgress) : Prop where
  /-- It is one to a store of the source. -/
  store_mem : a.store ∈ source.stores
  /-- It has passed its checks. -/
  isIdentity : a.store.table.IsIdentity a.fact.identity
  /-- It places its identity in indexes of its store. -/
  pending_subset : a.pending ⊆ a.store.layouts.values
  /-- It is of a later block, or stops before its version is stored. -/
  later : block < a.fact.block ∨ a.stops = true

/-- Whether an identity that is not at its place has no version as of a block. -/
def Covers (source : RangeSource) (block : UInt64) (d : Directory) : Prop :=
  ∀ i, source.store.table.IsIdentity i →
    (source.layout.placeOf (source.layout.rawBound i), i) ∉
      (d.indexTree source.layout.treeName).entries →
    source.store.versionAt d i block = .ok none

/-- What a step of an append may change: the same versions are seen, and only
identities that have nothing to show are placed. -/
structure Unseen (source : RangeSource) (block : UInt64) (d d' : Directory) : Prop where
  /-- The same versions are seen. -/
  reads : source.ReadsAlike block d d'
  /-- No identity loses its place. -/
  kept : ∀ e ∈ (d.indexTree source.layout.treeName).entries,
    e ∈ (d'.indexTree source.layout.treeName).entries
  /-- An identity with something to show is placed in both or in neither. -/
  placed : ∀ e ∈ (d'.indexTree source.layout.treeName).entries,
    source.hides d block e.2 = false → e ∈ (d.indexTree source.layout.treeName).entries

theorem Unseen.refl : Unseen source block d d :=
  ⟨⟨fun _ => rfl, fun _ _ _ => rfl⟩, fun _ he => he, fun _ he _ => he⟩

theorem Unseen.covers (h : Unseen source block d d') (hc : Covers source block d) :
    Covers source block d' := fun i hi hfree => by
  rw [h.reads.first]
  exact hc i hi fun hmem => hfree (h.kept _ hmem)

/-- Placing an identity of a store in one of its indexes is not seen. -/
theorem unseen_placeIdentity (hapart : source.Apart) (hc : Covers source block d) {s : FactStore}
    (hs : s ∈ source.stores) {i : Tuple} (hi : s.table.IsIdentity i) {l : Layout}
    (hl : l ∈ s.layouts.values) : Unseen source block d (l.placeIdentity i d) := by
  have hframe := Layout.reindexed_placeIdentity i d l
  have hversions : ∀ (s : FactStore) (j : Tuple),
      s.versionAt (l.placeIdentity i d) j block = s.versionAt d j block := fun s j =>
    versionAt_of_facts_eq (hframe.factTree_eq s.table.name) j block
  have hreads : source.ReadsAlike block d (l.placeIdentity i d) :=
    ⟨hversions _, fun join _ => hversions join.second⟩
  by_cases htree : l.treeName = source.layout.treeName
  · obtain ⟨rfl, htable⟩ := hapart.layout_eq s hs l hl htree
    rw [Layout.placeIdentity] at hreads ⊢
    split
    · exact .refl
    · rename_i hfree
      rw [SortedMap.contains_iff, not_exists] at hfree
      rw [if_neg (by rwa [SortedMap.contains_iff, not_exists])] at hreads
      refine ⟨hreads, fun e he => ?_, fun e he hshown => ?_⟩
      · rw [Directory.indexTree_setIndexTree_self, SortedMap.mem_entries_insert]
        exact .inr ⟨fun hplace => hfree e.2 (hplace ▸ he), he⟩
      · rw [Directory.indexTree_setIndexTree_self, SortedMap.mem_entries_insert] at he
        obtain rfl | ⟨-, he⟩ := he
        · -- The place was free, so the identity has nothing to show.
          have hnone := hc i (htable ▸ hi) (hfree i)
          rw [RangeSource.hides_of_versionAt hnone] at hshown
          cases hshown
        · exact he
  · have hsame := hframe.indexTree_eq source.layout.treeName fun he => htree he.symm
    refine ⟨hreads, fun e he => ?_, fun e he _ => ?_⟩
    · rwa [hsame]
    · rwa [hsame] at he

/-- Storing a version of a later block is not seen. -/
theorem unseen_record (hapart : source.Apart) {s : FactStore} (hs : s ∈ source.stores) {f : Fact}
    (hi : s.table.IsIdentity f.identity) (hblock : block < f.block) :
    Unseen source block d (s.record d f) := by
  have hversions : ∀ s' ∈ source.stores, ∀ i,
      s'.versionAt (s.record d f) i block = s'.versionAt d i block := fun s' hs' i =>
    versionAt_record_of_lt (hapart.table_eq s' hs' s hs) hi hblock i
  exact ⟨⟨hversions _ source.store_mem_stores,
    fun join hj => hversions _ (RangeSource.second_mem_stores hj)⟩,
    fun _ he => he, fun _ he _ => he⟩

/-- A step of a harmless append is not seen, and what it leaves is harmless. -/
theorem Harmless.step (hapart : source.Apart) (hc : Covers source block d)
    (ha : Harmless source block a) :
    Unseen source block d (a.step d).1 ∧
      ∀ a', (a.step d).2 = some a' → Harmless source block a' := by
  obtain ⟨s, f, pending, stops⟩ := a
  obtain ⟨hs, hi, hpending, hlater⟩ := ha
  cases pending with
  | nil =>
    refine ⟨?_, fun a' ha' => by cases ha'⟩
    dsimp only [AppendProgress.step]
    split
    · exact .refl
    · rename_i hstores
      exact unseen_record hapart hs hi (hlater.resolve_right hstores)
  | cons l rest =>
    obtain ⟨hl, hrest⟩ := List.cons_subset.mp hpending
    have hplace : indexIdentity f.identity d l = .ok (l.placeIdentity f.identity d) :=
      ((hapart.sound s hs).reads_of_mem hl).indexIdentity_eq hi d
    simp only [AppendProgress.step, hplace]
    refine ⟨unseen_placeIdentity hapart hc hs hi hl, fun a' ha' => ?_⟩
    cases ha'
    exact ⟨hs, hi, hrest, hlater⟩

/-- Whether a page comes to return what is said, and all appends on their way
are harmless. -/
structure OnCourse (source : RangeSource) (block : UInt64) (limit : Nat)
    (shown : Except Error (List Row × Option Tuple)) (x : ConcurrentRead) : Prop where
  /-- The page has the outlook. -/
  outlook_eq : x.outlook source block limit = shown
  /-- A row is joined as the source says. -/
  joining : ∀ p row join, x.reader = .ok p → p.stage = .joining row join →
    source.join = some join
  /-- The index covers what can be seen. -/
  covers : Covers source block x.directory
  /-- The appends are harmless. -/
  harmless : ∀ a ∈ x.appends, Harmless source block a

namespace OnCourse

variable {shown : Except Error (List Row × Option Tuple)}

/-- A row is joined only as the source says. -/
theorem join_of_step {p p' : PageProgress} {row : Row} {join : JoinSource}
    (h : PageProgress.step source block limit d p = .ok p') (hp : p'.stage = .joining row join) :
    source.join = some join := by
  obtain ⟨scanner, rows, skipped, stage⟩ := p
  cases stage with
  | finished more =>
    cases h
    cases hp
  | seeking =>
    simp only [PageProgress.step] at h
    split at h <;> · cases h; cases hp
  | joining row' join' =>
    simp only [PageProgress.step] at h
    cases hjoined : join'.join.resolve join'.second d row' block with
    | error e => simp [hjoined, Except.map] at h
    | ok joined =>
      simp only [hjoined, Except.map, Except.ok.injEq] at h
      subst h
      cases hp
  | found i =>
    simp only [PageProgress.step] at h
    split at h
    · cases hrow : source.store.resolveRow d i block with
      | error e => simp [hrow, Except.map] at h
      | ok seen =>
        simp only [hrow, Except.map, Except.ok.injEq] at h
        subst h
        cases seen with
        | none => cases hp
        | some row' =>
          cases hj : source.join with
          | none =>
            simp only [PageProgress.showRow, hj] at hp
            cases hp
          | some join' =>
            simp only [PageProgress.showRow, hj] at hp
            cases hp
            rfl
    · cases hresolve : source.store.resolve d i block with
      | error e => simp [hresolve, Except.bind] at h
      | ok r =>
        simp only [hresolve, Except.bind, PageProgress.passOver] at h
        split at h
        · cases h
          cases hp
        · cases hbound : source.layout.boundOf i with
          | error e => simp [hbound, Except.map] at h
          | ok bound =>
            simp only [hbound, Except.map, Except.ok.injEq] at h
            subst h
            cases hp

/-- A step of the page keeps it on its course. -/
theorem read (h : OnCourse source block limit shown x) :
    OnCourse source block limit shown (x.event source block limit .read) := by
  refine ⟨?_, fun p row join hp hstage => ?_, h.covers, h.harmless⟩
  · rw [← h.outlook_eq, outlook, outlook, event]
    cases x.reader with
    | error e => rfl
    | ok p => exact PageProgress.outlook_step.symm
  · rw [event] at hp
    cases hreader : x.reader with
    | error e => simp [hreader, Except.bind] at hp
    | ok before =>
      simp only [hreader, Except.bind] at hp
      exact join_of_step hp hstage

/-- A change that is not seen keeps the page on its course. -/
theorem of_unseen (h : OnCourse source block limit shown x)
    (hd : Unseen source block x.directory d) {appends : List AppendProgress}
    (ha : ∀ a ∈ appends, Harmless source block a) :
    OnCourse source block limit shown ⟨d, x.reader, appends⟩ := by
  refine ⟨?_, h.joining, hd.covers h.covers, ha⟩
  have hsame := h.outlook_eq
  rw [outlook] at hsame ⊢
  cases hreader : x.reader with
  | error e =>
    rw [hreader] at hsame
    exact hsame
  | ok p =>
    rw [hreader] at hsame
    have houtlook : p.outlook source block limit d = p.outlook source block limit x.directory :=
      PageProgress.outlook_congr hd.reads.seesAlike
        (fun e hshown => ⟨fun he => hd.placed e he hshown, hd.kept e⟩)
        fun row join hstage => h.joining p row join hreader hstage
    exact houtlook.trans hsame

/-- A step of an append keeps the page on its course. -/
theorem advance (hapart : source.Apart) (h : OnCourse source block limit shown x) (n : Nat) :
    OnCourse source block limit shown (x.event source block limit (.advance n)) := by
  rw [event]
  cases ha : x.appends[n]? with
  | none => exact h
  | some a =>
    obtain ⟨hunseen, hleft⟩ :=
      (h.harmless a (List.mem_of_getElem? ha)).step hapart h.covers
    dsimp only
    cases hstep : a.step x.directory with
    | mk d left =>
      rw [hstep] at hunseen hleft
      cases left with
      | none => exact h.of_unseen hunseen fun a' ha' => h.harmless a' (List.mem_of_mem_eraseIdx ha')
      | some a' =>
        refine h.of_unseen hunseen fun b hb => ?_
        obtain hb | rfl := List.mem_or_eq_of_mem_set hb
        · exact h.harmless b hb
        · exact hleft b rfl

/-- The check of an admissible append keeps the page on its course. -/
theorem check (h : OnCourse source block limit shown x) {s : FactStore} {f : Fact}
    {order : List Layout} {stops : Bool}
    (he : (ReadEvent.check s f order stops).Admissible source block) :
    OnCourse source block limit shown (x.event source block limit (.check s f order stops)) := by
  obtain ⟨hs, horder, hlater⟩ := he
  rw [event]
  split
  · rename_i hjudge
    refine h.of_unseen .refl fun a ha => ?_
    obtain ha | ha := List.mem_append.mp ha
    · exact h.harmless a ha
    · obtain rfl := List.mem_singleton.mp ha
      exact ⟨hs, (History.fits_of_judge hjudge).1, horder.subset, hlater⟩
  · exact h

/-- Every admissible event keeps the page on its course. -/
theorem event (hapart : source.Apart) (h : OnCourse source block limit shown x) {e : ReadEvent}
    (he : e.Admissible source block) :
    OnCourse source block limit shown (x.event source block limit e) := by
  cases e with
  | read => exact h.read
  | check s f order stops => exact h.check he
  | advance n => exact h.advance hapart n

/-- Admissible events keep the page on its course. -/
theorem run (hapart : source.Apart) (h : OnCourse source block limit shown x)
    {events : List ReadEvent} (hevents : ∀ e ∈ events, e.Admissible source block) :
    OnCourse source block limit shown (x.run source block limit events) := by
  induction events generalizing x with
  | nil => exact h
  | cons e events ih =>
    obtain ⟨he, hevents⟩ := List.forall_mem_cons.mp hevents
    exact ih (h.event hapart he) hevents

end OnCourse

/-- A page that is about to be read has the outlook of the page that is read
with nothing going on. -/
theorem onCourse_start (hapart : source.Apart) (hreadable : source.store.Readable d)
    (hmaps : source.store.Maps d source.layout) (first last : Tuple) :
    OnCourse source block limit ((source.page d first last block limit).map Page.shown)
      ⟨d, source.startPage first last limit, []⟩ := by
  refine ⟨?_, fun p row join hp hstage => ?_, fun i hi hfree => ?_, by simp⟩
  · exact (source.page_shown d first last block limit).symm
  · exact absurd hstage (RangeSource.stage_startPage hp row join)
  · refine hreadable.versionAt_eq_none hi fun hstored => hfree ?_
    rw [← SortedMap.get?_eq_some_iff]
    exact hmaps i _ hstored (hapart.reads.positionOfIdentity_eq hi)

/-- Appends that go on while a page is read do not change what it shows. If
they are of later blocks, or stop for good before their versions are stored,
then in every interleaving of the steps the page returns the rows and the next
bound that it shows with nothing going on, or the same error, and it does so if
the appends leave it alone from some moment on. -/
theorem returned_eq_page (hapart : source.Apart) (hreadable : source.store.Readable d)
    (hmaps : source.store.Maps d source.layout)
    (first last : Tuple) {events : List ReadEvent}
    (hevents : ∀ e ∈ events, e.Admissible source block) :
    let alone := (source.page d first last block limit).map Page.shown
    let x := run source block limit ⟨d, source.startPage first last limit, []⟩ events
    (∀ shown, x.returned = some shown → shown = alone) ∧
      (x.reader.bind (PageProgress.run source block limit x.directory)).map Page.shown = alone := by
  intro alone x
  have hcourse : OnCourse source block limit alone x :=
    (onCourse_start hapart hreadable hmaps first last).run hapart hevents
  refine ⟨fun shown hshown => (eq_outlook_of_returned hshown).trans hcourse.outlook_eq, ?_⟩
  rw [← hcourse.outlook_eq, outlook]
  cases x.reader with
  | error e => rfl
  | ok p => exact PageProgress.run_shown

/-- A sample of items with the levels of their owners. -/
def sampleConfiguration : Configuration where
  tables := [⟨"item", [⟨"id", .string⟩, ⟨"owner", .string⟩], ["id"]⟩,
    ⟨"owner", [⟨"name", .string⟩, ⟨"level", .uint32⟩], ["name"]⟩]
  indexes := [⟨"item_by_id", "item", [.asc "id"]⟩]
  queries := [⟨"items", "item_by_id", true, 10, some ⟨"owner", ["owner"], [⟨"level", none⟩]⟩⟩]

/-- The index by which items are read. -/
def sampleByItem : Layout := ⟨"item_by_id", "item", [⟨"id", 0, .string, none, .asc⟩]⟩

/-- The store of the items. -/
def sampleItems : FactStore :=
  ⟨⟨"item", [⟨"id", .string⟩, ⟨"owner", .string⟩], ["id"]⟩,
    SortedMap.empty.insert "item_by_id" sampleByItem⟩

/-- The store of the owners. -/
def sampleOwners : FactStore :=
  ⟨⟨"owner", [⟨"name", .string⟩, ⟨"level", .uint32⟩], ["name"]⟩, .empty⟩

/-- Items with the levels of their owners. -/
def sampleSource : RangeSource :=
  ⟨sampleItems, sampleByItem, some ⟨⟨"owner", [1], true, [⟨1, "level", .uint32⟩]⟩, sampleOwners⟩⟩

/-- A page of one item is read, with the level of its owner as of block 4.
Meanwhile the item b is appended at block 9 and a new level at block 8, and an
append of the item bb at block 1 stops before its version is stored. -/
theorem sample_returned_eq_page :
    let item (id : String) (block : UInt64) : Fact := .live [.string id] block [.string "ann"]
    let owner (block : UInt64) (level : UInt32) : Fact :=
      .live [.string "ann"] block [.uint32 level]
    let db := (Database.ofDirectory .empty).run [.load sampleConfiguration,
      .append "item" (item "a" 2), .append "item" (item "c" 2), .append "owner" (owner 3 7)]
    let events : List ReadEvent := [
      .check sampleItems (item "b" 9) [sampleByItem] false, .advance 0, .read,
      .check sampleOwners (owner 8 8) [] false, .read, .advance 1, .read,
      .check sampleItems (item "bb" 1) [sampleByItem] true, .advance 1, .read,
      .read, .advance 0, .read, .read, .read, .read]
    let x := run sampleSource 4 1
      ⟨db.directory, sampleSource.startPage [.string ""] [.string "~"] 1, []⟩ events
    let page := sampleSource.page db.directory [.string ""] [.string "~"] 4 1
    x.returned = some (page.map Page.shown) ∧
      page.toOption.map Page.shown =
        some ([⟨2, true, [.string "a", .string "ann", .uint32 7]⟩], some [.string "c"]) := by
  intro item owner db events x page
  let q : PreparedQuery := ⟨⟨"items", "item_by_id", true, 10,
      some ⟨"owner", ["owner"], [⟨"level", none⟩]⟩⟩, "item", ["id", "owner", "level"],
    some ⟨"owner", [1], true, [⟨1, "level", .uint32⟩]⟩⟩
  have hsep : db.catalog.Separate := Catalog.separate_of_indexes (by decide +kernel)
  have horder : db.InOrder := Database.inOrder_empty.run hsep
  have hq : db.queries.find "items" = .ok q := Registry.find_eq_ok.mpr (by decide +kernel)
  have hsource : db.rangeSource q = .ok sampleSource := eq_ok_of_toOption (by decide +kernel)
  obtain ⟨source, hfound, hready⟩ := horder.exists_source hq
  rw [hsource] at hfound
  obtain rfl := Except.ok.inj hfound
  have hevents : ∀ e ∈ events, e.Admissible sampleSource 4 := by decide +kernel
  have hreturned : ∀ shown, x.returned = some shown → shown = page.map Page.shown :=
    (returned_eq_page (horder.apart hsep hsource) hready.readable hready.maps [.string ""]
      [.string "~"] hevents).1
  have hended : x.returned.isSome = true := by decide +kernel
  refine ⟨?_, by decide +kernel⟩
  obtain ⟨shown, hshown⟩ := Option.isSome_iff_exists.mp hended
  rw [hshown, hreturned shown hshown]

/-- A store whose index c has the tree "a:b:c". -/
def clashingFirst : FactStore :=
  ⟨⟨"a:b", [⟨"k", .string⟩, ⟨"v", .int64⟩], ["k"]⟩,
    SortedMap.empty.insert "c" ⟨"c", "a:b", [⟨"k", 0, .string, none, .asc⟩]⟩⟩

/-- A store whose index b:c has the tree "a:b:c". -/
def clashingSecond : FactStore :=
  ⟨⟨"a", [⟨"k", .string⟩, ⟨"n", .int64⟩, ⟨"w", .int64⟩], ["k", "n"]⟩,
    SortedMap.empty.insert "b:c"
      ⟨"b:c", "a", [⟨"k", 0, .string, none, .asc⟩, ⟨"n", 1, .int64, none, .asc⟩]⟩⟩

/-- The first store joined with the second. -/
def clashingSource : RangeSource where
  store := clashingFirst
  layout := ⟨"c", "a:b", [⟨"k", 0, .string, none, .asc⟩]⟩
  join := some ⟨⟨"a", [0, 1], true, [⟨2, "w", .int64⟩]⟩, clashingSecond⟩

/-- The append of a later block to the second store places an identity in the
tree of the first, where the page cannot make sense of it. -/
theorem not_returned_eq_page :
    ¬∀ (source : RangeSource) (d : Directory) (block : UInt64) (limit : Nat) (first last : Tuple)
      (events : List ReadEvent),
      (∀ s ∈ source.stores, s.Sound ∧ s.Readable d ∧ ∀ l ∈ s.layouts.values, s.Maps d l) →
      source.layout ∈ source.store.layouts.values →
      (∀ join, source.join = some join →
        join.join.Reads source.store.table join.second.table) →
      source.layout.IsBound first → source.layout.IsBound last →
      (∀ e ∈ events, e.Admissible source block) →
      ∀ shown, (run source block limit
          ⟨d, source.startPage first last limit, []⟩ events).returned = some shown →
        shown = (source.page d first last block limit).map Page.shown := by
  intro h
  have hfirst : clashingFirst.table.Sound := Table.validate_eq_ok.mp rfl
  have hsecond : clashingSecond.table.Sound := Table.validate_eq_ok.mp rfl
  have hempty : ∀ s : FactStore, s.Readable .empty ∧ ∀ l, s.Maps .empty l := fun s => by
    have hr : History.RecordedIn [] s.table (s.facts .empty) := History.recordedIn_nil s.table
    refine ⟨readable_of_recordedIn hr, fun l i position hi => ?_⟩
    exact absurd (hr.stores_iff.mp hi) (History.knows_nil i)
  have hstores : ∀ s ∈ clashingSource.stores,
      s.Sound ∧ s.Readable .empty ∧ ∀ l ∈ s.layouts.values, s.Maps .empty l := by
    intro s hs
    refine ⟨?_, (hempty s).1, fun l _ => (hempty s).2 l⟩
    obtain rfl | rfl : s = clashingFirst ∨ s = clashingSecond := by
      simpa [RangeSource.stores, clashingSource] using hs
    · obtain ⟨-, -, hreads⟩ := Index.reads_of_compile (i := ⟨"c", "a:b", [.asc "k"]⟩) hfirst rfl
      exact (sound_of_ofTable (ofTable_eq_ok.mpr ⟨hfirst, rfl⟩)).insert hreads
    · obtain ⟨-, -, hreads⟩ :=
        Index.reads_of_compile (i := ⟨"b:c", "a", [.asc "k", .asc "n"]⟩) hsecond rfl
      exact (sound_of_ofTable (ofTable_eq_ok.mpr ⟨hsecond, rfl⟩)).insert hreads
  have hjoin : ∀ join, clashingSource.join = some join →
      join.join.Reads clashingFirst.table join.second.table := by
    intro join hj
    have hcompiled : Join.compile clashingFirst.table clashingSecond.table ["k", "v"]
        [("w", none)] = .ok ⟨"a", [0, 1], true, [⟨2, "w", .int64⟩]⟩ := rfl
    cases hj
    exact Join.reads_of_compile hsecond hcompiled
  let events : List ReadEvent := [
    .check clashingSecond (.live [.string "m", .int64 5] 9 [.int64 0])
      clashingSecond.layouts.values false,
    .advance 0, .advance 0, .read, .read]
  let x := run clashingSource 5 10
    ⟨.empty, clashingSource.startPage [.string ""] [.string "z"] 10, []⟩ events
  have hended : x.returned.isSome = true := by decide +kernel
  obtain ⟨shown, hshown⟩ := Option.isSome_iff_exists.mp hended
  have hsame := h clashingSource .empty 5 10 [.string ""] [.string "z"] events hstores
    (by decide +kernel) hjoin (by decide +kernel) (by decide +kernel) (by decide +kernel) shown
    hshown
  have hfailed : (x.returned.bind Except.toOption).isNone = true := by decide +kernel
  rw [hshown, Option.bind_some, hsame] at hfailed
  revert hfailed
  decide +kernel

end ConcurrentRead
end Chronicle
