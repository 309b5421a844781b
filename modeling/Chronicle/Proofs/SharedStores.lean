import Chronicle.Proofs.StoredIdentities

/-!
# Shared stores

Several stores of one table may be open on a directory, together or one after
the other, and each registers indexes of its own. A tree outlives the stores
that registered its index, and an append reaches the indexes of its own store
alone. Registering an index builds an empty tree and takes any other tree as it
is, so the index is complete exactly if its tree was empty or complete before.
It never holds a wrong entry while its name stands for one layout, and it lacks
none if first versions were appended by stores that had it registered.
-/

namespace Chronicle

open FactStore

/-- A call on the stores of one table. -/
inductive SharedCall where
  /-- Open a further store. -/
  | openStore
  /-- Use the store of a number. -/
  | use (store : Nat) (call : StoreCall)

/-- A directory with the stores of one table that were opened on it. -/
structure SharedTable where
  /-- What is stored. -/
  directory : Directory
  /-- The stores, in the order of their opening. -/
  stores : List FactStore

namespace SharedTable

/-- A new directory without stores. -/
def new : SharedTable := ⟨.empty, []⟩

/-- What a call leaves. A store that was never opened cannot be used. -/
def call (x : SharedTable) (t : Table) : SharedCall → SharedTable
  | .openStore =>
    match FactStore.ofTable t with
    | .ok s => { x with stores := x.stores ++ [s] }
    | .error _ => x
  | .use n c =>
    match x.stores[n]? with
    | some s =>
      let after := (StoreSession.mk x.directory s).call c
      ⟨after.directory, x.stores.set n after.store⟩
    | none => x

/-- What some calls leave. -/
def run (x : SharedTable) (t : Table) (calls : List SharedCall) : SharedTable :=
  calls.foldl (call · t) x

/-- What each store has registered under an index name. -/
def known (x : SharedTable) (index : String) : List (Option Layout) :=
  x.stores.map (·.layouts.get? index)

/-- Whether some store has an index registered. -/
def Registers (x : SharedTable) (index : String) : Prop := ∃ l, some l ∈ x.known index

/-- Whether a call keeps an index up. A store that appends the first version of
an identity has the index registered, if any store has. -/
def Maintains (x : SharedTable) (index : String) : SharedCall → Prop
  | .use n (.append f) => ∀ s, x.stores[n]? = some s → x.Registers index →
      (s.append x.directory f).2 = .ok .appended →
      s.Stores x.directory f.identity ∨ ∃ l, s.layout index = .ok l
  | _ => True

/-- Stores that all have an index registered keep it up. -/
theorem maintains_of_known {x : SharedTable} {index : String} {n : Nat} {f : Fact}
    (h : ∀ o ∈ x.known index, o.isSome = true) : x.Maintains index (.use n (.append f)) := by
  intro s hs _ _
  obtain ⟨l, hl⟩ := Option.isSome_iff_exists.mp
    (h (s.layouts.get? index) (List.mem_map.mpr ⟨s, List.mem_of_getElem? hs, rfl⟩))
  exact .inr ⟨l, by rw [layout, hl]⟩

/-- Whether each of some calls keeps an index up. -/
def MaintainsAll (x : SharedTable) (t : Table) (index : String) : List SharedCall → Prop
  | [] => True
  | c :: rest => x.Maintains index c ∧ (x.call t c).MaintainsAll t index rest

/-- Stores of one table that are in order, on a directory that records a
history. -/
structure Records (x : SharedTable) (t : Table) (h : History) : Prop where
  /-- Each store belongs to the table. -/
  table_eq : ∀ s ∈ x.stores, s.table = t
  /-- Each store is in order. -/
  sound : ∀ s ∈ x.stores, s.Sound
  /-- The fact tree holds the history. -/
  recorded : h.RecordedIn t (x.directory.factTree t.name)

/-- Stores of one table that are in order, for a layout that is the only one of
its name. -/
structure Tracks (x : SharedTable) (t : Table) (h : History) (l : Layout) : Prop where
  /-- The stores record a history. -/
  records : x.Records t h
  /-- The name stands for the layout. -/
  one : ∀ l', some l' ∈ x.known l.name → l' = l
  /-- The tree holds some identities of the history, each at its place. -/
  within : ∃ placed : Tuple → Prop, (∀ i, placed i → h.Knows i) ∧
    l.Places placed (x.directory.indexTree l.treeName)
  /-- An index that no store has registered has no entries. -/
  unused : ¬x.Registers l.name → (x.directory.indexTree l.treeName).isEmpty = true

/-- Whether an index that some store has registered is complete. -/
def Current (x : SharedTable) (h : History) (l : Layout) : Prop :=
  x.Registers l.name → l.Places h.Knows (x.directory.indexTree l.treeName)

variable {x : SharedTable} {t : Table} {h : History} {l : Layout} {n : Nat} {s : FactStore}

theorem Records.session (hx : x.Records t h) (hs : x.stores[n]? = some s) :
    (StoreSession.mk x.directory s).Records t h := by
  have hmem := List.mem_of_getElem? hs
  have htable := hx.table_eq s hmem
  refine ⟨htable, hx.sound s hmem, ?_⟩
  rw [FactStore.facts, htable]
  exact hx.recorded

theorem tracks_new (t : Table) (l : Layout) : new.Tracks t [] l :=
  ⟨⟨by simp [new], by simp [new], History.recordedIn_nil t⟩, by simp [new, known],
    ⟨_, fun _ hi => hi.elim, Layout.places_of_isEmpty rfl⟩, fun _ => rfl⟩

/-- What the used store has under a name is replaced by what it has afterwards. -/
theorem known_use (hs : x.stores[n]? = some s) (c : StoreCall) (index : String) :
    (x.call t (.use n c)).known index = (x.known index).set n
      (((StoreSession.mk x.directory s).call c).store.layouts.get? index) := by
  rw [call, hs]
  exact List.map_set

/-- A call that leaves the layouts of its store leaves what the stores know. -/
theorem known_use_of_eq (hs : x.stores[n]? = some s) {c : StoreCall} {index : String}
    (hc : ((StoreSession.mk x.directory s).call c).store.layouts.get? index =
      s.layouts.get? index) : (x.call t (.use n c)).known index = x.known index := by
  obtain ⟨hn, rfl⟩ := List.getElem?_eq_some_iff.mp hs
  have hknown : n < (x.known index).length := by simpa [known] using hn
  have hget : (x.known index)[n] = x.stores[n].layouts.get? index := by simp [known]
  rw [known_use hs, hc, ← hget, List.set_getElem_self]

theorem directory_use (hs : x.stores[n]? = some s) (c : StoreCall) :
    (x.call t (.use n c)).directory = ((StoreSession.mk x.directory s).call c).directory := by
  rw [call, hs]

/-- Using a store keeps all stores in order and extends the history. -/
theorem Records.use (hx : x.Records t h) (hs : x.stores[n]? = some s) (c : StoreCall) :
    (x.call t (.use n c)).Records t (c.extend t h) := by
  obtain ⟨htable, hsound, hrecorded⟩ := (hx.session hs).call c
  rw [FactStore.facts, htable] at hrecorded
  rw [call, hs]
  refine ⟨fun s' hs' => ?_, fun s' hs' => ?_, hrecorded⟩
  · rcases List.mem_or_eq_of_mem_set hs' with hs' | rfl
    · exact hx.table_eq s' hs'
    · exact htable
  · rcases List.mem_or_eq_of_mem_set hs' with hs' | rfl
    · exact hx.sound s' hs'
    · exact hsound

/-- A call that leaves an index and its tree keeps the stores in order, and the
index current unless an identity is new. -/
theorem Tracks.use_of_frame (hx : x.Tracks t h l) (hs : x.stores[n]? = some s) {c : StoreCall}
    (hlayout : ((StoreSession.mk x.directory s).call c).store.layouts.get? l.name =
      s.layouts.get? l.name)
    (htree : ((StoreSession.mk x.directory s).call c).directory.indexTree l.treeName =
      x.directory.indexTree l.treeName)
    (hgrow : ∀ i, h.Knows i → (c.extend t h).Knows i) :
    (x.call t (.use n c)).Tracks t (c.extend t h) l ∧
      ((x.Registers l.name → ∀ i, (c.extend t h).Knows i → h.Knows i) → x.Current h l →
        (x.call t (.use n c)).Current (c.extend t h) l) := by
  have hknown : (x.call t (.use n c)).known l.name = x.known l.name := known_use_of_eq hs hlayout
  have htree : (x.call t (.use n c)).directory.indexTree l.treeName =
      x.directory.indexTree l.treeName := by rw [directory_use hs, htree]
  obtain ⟨placed, hplaced, hplaces⟩ := hx.within
  refine ⟨⟨hx.records.use hs c, ?_, ⟨placed, fun i hi => hgrow i (hplaced i hi), ?_⟩, ?_⟩, ?_⟩
  · rw [hknown]
    exact hx.one
  · rw [htree]
    exact hplaces
  · rw [htree, Registers, hknown]
    exact hx.unused
  · rw [Current, Current, Registers, Registers, hknown, htree]
    exact fun hsame hcurrent hregisters =>
      (hcurrent hregisters).congr fun i => ⟨hgrow i, hsame hregisters i⟩

/-- A call after which its store has the layout and the tree holds identities of
the history keeps the stores in order. -/
theorem Tracks.use_of_placed (hx : x.Tracks t h l) (hs : x.stores[n]? = some s) {c : StoreCall}
    (hlayout : ((StoreSession.mk x.directory s).call c).store.layouts.get? l.name = some l)
    {placed : Tuple → Prop} (hp : ∀ i, placed i → (c.extend t h).Knows i)
    (hplaces : l.Places placed
      (((StoreSession.mk x.directory s).call c).directory.indexTree l.treeName)) :
    (x.call t (.use n c)).Tracks t (c.extend t h) l := by
  have hknown : (x.call t (.use n c)).known l.name = (x.known l.name).set n (some l) := by
    rw [known_use hs, hlayout]
  have hn : n < (x.known l.name).length := by
    rw [known, List.length_map]
    exact (List.getElem?_eq_some_iff.mp hs).1
  refine ⟨hx.records.use hs c, fun l' hl' => ?_, ⟨placed, hp, ?_⟩, fun hnone => ?_⟩
  · rw [hknown] at hl'
    rcases List.mem_or_eq_of_mem_set hl' with hl' | hl'
    · exact hx.one l' hl'
    · exact Option.some.inj hl'
  · rw [directory_use hs]
    exact hplaces
  · exact absurd ⟨l, hknown ▸ List.mem_set hn _⟩ hnone

theorem current_use (hs : x.stores[n]? = some s) {c : StoreCall} {h' : History}
    (hplaces : l.Places h'.Knows
      (((StoreSession.mk x.directory s).call c).directory.indexTree l.treeName)) :
    (x.call t (.use n c)).Current h' l := by
  intro _
  rw [directory_use hs]
  exact hplaces

/-- What a store of the table has under the name of the layout is the layout. -/
theorem Tracks.eq_of_get? (hx : x.Tracks t h l) (hs : x.stores[n]? = some s) {l' : Layout}
    (hl' : s.layouts.get? l.name = some l') : l' = l :=
  hx.one l' (List.mem_map.mpr ⟨s, List.mem_of_getElem? hs, hl'⟩)

/-- Opening a store keeps all stores in order. -/
theorem Records.openStore (hx : x.Records t h) : (x.call t .openStore).Records t h := by
  rw [call]
  cases hs : FactStore.ofTable t with
  | error e => exact hx
  | ok s =>
    have hsound := sound_of_ofTable hs
    obtain ⟨-, rfl⟩ := ofTable_eq_ok.mp hs
    refine ⟨fun s' hs' => ?_, fun s' hs' => ?_, hx.recorded⟩
    · rcases List.mem_append.mp hs' with hs' | hs'
      · exact hx.table_eq s' hs'
      · rw [List.mem_singleton.mp hs']
    · rcases List.mem_append.mp hs' with hs' | hs'
      · exact hx.sound s' hs'
      · rw [List.mem_singleton.mp hs']
        exact hsound

/-- A store that is opened knows no index. -/
theorem mem_known_openStore {index : String} {l' : Layout} :
    some l' ∈ (x.call t .openStore).known index ↔ some l' ∈ x.known index := by
  rw [call]
  cases hs : FactStore.ofTable t with
  | error e => exact .rfl
  | ok s =>
    obtain ⟨-, rfl⟩ := ofTable_eq_ok.mp hs
    simp [known]

theorem directory_openStore : (x.call t .openStore).directory = x.directory := by
  rw [call]
  cases FactStore.ofTable t <;> rfl

theorem Tracks.openStore (hx : x.Tracks t h l) :
    (x.call t .openStore).Tracks t h l ∧ (x.Current h l → (x.call t .openStore).Current h l) := by
  rw [Current, Current, Registers, Registers, directory_openStore]
  simp only [mem_known_openStore]
  refine ⟨⟨hx.records.openStore, fun l' hl' => hx.one l' (mem_known_openStore.mp hl'), ?_, ?_⟩, id⟩
  · rw [directory_openStore]
    exact hx.within
  · rw [directory_openStore, Registers]
    simp only [mem_known_openStore]
    exact hx.unused

/-- Registering an index of one layout completes an empty tree and leaves the
tree of any other index. -/
theorem Tracks.register (hl : l.Reads t) (hx : x.Tracks t h l) (hs : x.stores[n]? = some s)
    {i : Index} (hi : ∀ l', i.name = l.name → i.compile t = .ok l' → l' = l) :
    (x.call t (.use n (.register i))).Tracks t h l ∧
      (x.Current h l → (x.call t (.use n (.register i))).Current h l) := by
  obtain ⟨htable, hsound, hrecorded⟩ := hx.records.session hs
  dsimp only at htable hsound hrecorded
  rw [← htable] at hrecorded hi
  cases hcompiled : i.compile s.table with
  | error e =>
    have hcall : (StoreSession.mk x.directory s).call (.register i) = ⟨x.directory, s⟩ := by
      rw [StoreSession.call, registerIndex_of_error hcompiled]
    obtain ⟨htracks, hcurrent⟩ := hx.use_of_frame hs (c := .register i) (by rw [hcall])
      (by rw [hcall]) fun _ => id
    exact ⟨htracks, hcurrent fun _ _ => id⟩
  | ok l' =>
    obtain ⟨hname, -, hreads⟩ := Index.reads_of_compile hsound.table hcompiled
    obtain ⟨d', heq, hframe, hcomplete⟩ := registerIndex_of_ok hsound hrecorded hcompiled
    have hcall : (StoreSession.mk x.directory s).call (.register i) =
        ⟨d', { s with layouts := s.layouts.insert i.name l' }⟩ := by
      rw [StoreSession.call, heq]
    by_cases hsame : i.name = l.name
    · obtain rfl := hi l' hsame hcompiled
      have hlayout : ((StoreSession.mk x.directory s).call (.register i)).store.layouts.get?
          l'.name = some l' := by
        rw [hcall, ← hsame, SortedMap.get?_insert_self]
      cases hempty : (x.directory.indexTree l'.treeName).isEmpty with
      | true =>
        have hplaces : l'.Places h.Knows (((StoreSession.mk x.directory s).call
            (.register i)).directory.indexTree l'.treeName) := by
          rw [hcall]
          exact hcomplete (.inr hempty)
        exact ⟨hx.use_of_placed hs hlayout (fun _ => id) hplaces,
          fun _ => current_use hs hplaces⟩
      | false =>
        rw [registerIndex_of_nonempty hcompiled hempty, Prod.mk.injEq] at heq
        obtain ⟨rfl, -⟩ := heq
        obtain ⟨placed, hplaced, hplaces⟩ := hx.within
        refine ⟨hx.use_of_placed hs hlayout hplaced (by rwa [hcall]), fun hcurrent => ?_⟩
        refine current_use hs ?_
        rw [hcall]
        -- A tree with entries belongs to an index that was registered before.
        refine hcurrent (by_contra fun hnone => ?_)
        rw [hx.unused hnone] at hempty
        cases hempty
    · have htree : ((StoreSession.mk x.directory s).call (.register i)).directory.indexTree
          l.treeName = x.directory.indexTree l.treeName := by
        rw [hcall]
        refine hframe.indexTree_eq _ fun he => hsame ?_
        rw [← hname, ← (Sound.treeName_inj hl (htable ▸ hreads)).mp he]
      obtain ⟨htracks, hcurrent⟩ := hx.use_of_frame hs (c := .register i)
        (by rw [hcall, SortedMap.get?_insert_of_ne fun he => hsame he.symm]) htree fun _ => id
      exact ⟨htracks, hcurrent fun _ _ => id⟩

/-- Rebuilding an index completes it and leaves the tree of any other index. -/
theorem Tracks.rebuild (hl : l.Reads t) (hx : x.Tracks t h l) (hs : x.stores[n]? = some s)
    (index : String) :
    (x.call t (.use n (.rebuild index))).Tracks t h l ∧
      (x.Current h l → (x.call t (.use n (.rebuild index))).Current h l) := by
  obtain ⟨htable, hsound, hrecorded⟩ := hx.records.session hs
  dsimp only at htable hsound hrecorded
  rw [← htable] at hrecorded
  have hframe : index ≠ l.name ∨ s.layouts.get? index = none →
      (s.rebuildIndex x.directory index).1.indexTree l.treeName =
        x.directory.indexTree l.treeName := by
    intro hother
    cases hl' : s.layouts.get? index with
    | none => rw [rebuildIndex_of_none hl']
    | some l' =>
      refine (rebuildIndex_frame hl').indexTree_eq _ fun he => ?_
      rw [Sound.treeName_inj hl (htable ▸ hsound.reads hl'), hsound.name_eq hl'] at he
      simp [he, hl'] at hother
  by_cases hother : index ≠ l.name ∨ s.layouts.get? index = none
  · obtain ⟨htracks, hcurrent⟩ :=
      hx.use_of_frame hs (c := .rebuild index) rfl (hframe hother) fun _ => id
    exact ⟨htracks, hcurrent fun _ _ => id⟩
  · rw [not_or, not_not, ← ne_eq, Option.ne_none_iff_exists'] at hother
    obtain ⟨rfl, l', hl'⟩ := hother
    obtain rfl := hx.eq_of_get? hs hl'
    obtain ⟨d', count, heq, -, hplaces⟩ := rebuildIndex_of_ok hsound hrecorded hl'
    have hcall : (StoreSession.mk x.directory s).call (.rebuild l'.name) = ⟨d', s⟩ := by
      rw [StoreSession.call, heq]
    have hplaces : l'.Places h.Knows (((StoreSession.mk x.directory s).call
        (.rebuild l'.name)).directory.indexTree l'.treeName) := by rwa [hcall]
    exact ⟨hx.use_of_placed hs (by rw [hcall]; exact hl') (fun _ => id) hplaces,
      fun _ => current_use hs hplaces⟩

/-- An append adds its identity to the tree if the store has the index
registered, and leaves the tree otherwise. -/
theorem Tracks.append (hl : l.Reads t) (hx : x.Tracks t h l) (hs : x.stores[n]? = some s)
    (f : Fact) :
    (x.call t (.use n (.append f))).Tracks t (h.append t f) l ∧
      (x.Maintains l.name (.use n (.append f)) → x.Current h l →
        (x.call t (.use n (.append f))).Current (h.append t f) l) := by
  obtain ⟨htable, hsound, hrecorded⟩ := hx.records.session hs
  dsimp only at htable hsound hrecorded
  subst htable
  by_cases hj : h.judge s.table f = .appended
  · have hgrown := History.append_of_appended hj
    cases hl' : s.layouts.get? l.name with
    | none =>
      have htree : (s.append x.directory f).1.indexTree l.treeName =
          x.directory.indexTree l.treeName := by
        refine (append_frame s x.directory f).2.1 _ fun l' hmem he => ?_
        obtain ⟨name, hname⟩ := mem_values_iff.mp hmem
        rw [Sound.treeName_inj hl (hsound.reads hname), hsound.name_eq hname] at he
        rw [he, hname] at hl'
        cases hl'
      obtain ⟨htracks, hcurrent⟩ := hx.use_of_frame hs (c := .append f) rfl htree fun i hi => by
        rw [StoreCall.extend, hgrown]
        exact History.knows_cons.mpr (.inr hi)
      refine ⟨htracks, fun hmaintains hc => hcurrent (fun hregisters i hi => ?_) hc⟩
      rw [StoreCall.extend, hgrown, History.knows_cons] at hi
      obtain rfl | hi := hi
      · have hresult : (s.append x.directory f).2 = .ok .appended := by
          rw [append_of_appended hsound hrecorded hj]
        obtain hstored | ⟨l', hlayout⟩ := hmaintains s hs hregisters hresult
        · exact hrecorded.stores_iff.mp hstored
        · rw [layout_eq_ok, hl'] at hlayout
          cases hlayout
      · exact hi
    | some l' =>
      obtain rfl := hx.eq_of_get? hs hl'
      obtain ⟨placed, hplaced, hplaces⟩ := hx.within
      refine ⟨hx.use_of_placed hs (c := .append f) hl' (fun i hi => ?_)
        (places_append_of_appended hsound hrecorded hj hl' hplaced hplaces), fun _ hcurrent => ?_⟩
      · rw [StoreCall.extend, hgrown, History.knows_cons]
        exact hi.imp_right (hplaced i)
      · refine current_use hs (places_append hsound hrecorded f hl' (hcurrent ?_))
        exact ⟨l', List.mem_map.mpr ⟨s, List.mem_of_getElem? hs, hl'⟩⟩
  · have hsame := History.append_of_ne hj
    obtain ⟨htracks, hcurrent⟩ := hx.use_of_frame hs (c := .append f) rfl
      (congrArg (Directory.indexTree · l.treeName) (append_of_ne hrecorded hj).1) fun i hi => by
        rwa [StoreCall.extend, hsame]
    refine ⟨htracks, fun _ => hcurrent fun _ i hi => ?_⟩
    rwa [StoreCall.extend, hsame] at hi

/-- Whether some calls register one layout under the name of a layout. A
definition that does not compile is not registered. -/
def OneLayout (t : Table) (calls : List SharedCall) (l : Layout) : Prop :=
  ∀ n i l', .use n (.register i) ∈ calls → i.name = l.name → i.compile t = .ok l' → l' = l

/-- Every call keeps the stores in order, and an index current that it keeps up. -/
theorem Tracks.call (hl : l.Reads t) (hx : x.Tracks t h l) {c : SharedCall}
    (hc : OneLayout t [c] l) :
    ∃ h', (x.call t c).Tracks t h' l ∧
      (x.Maintains l.name c → x.Current h l → (x.call t c).Current h' l) := by
  cases c with
  | openStore =>
    obtain ⟨htracks, hcurrent⟩ := hx.openStore
    exact ⟨h, htracks, fun _ => hcurrent⟩
  | use n c =>
    cases hs : x.stores[n]? with
    | none =>
      rw [SharedTable.call, hs]
      exact ⟨h, hx, fun _ => id⟩
    | some s =>
      cases c with
      | register i =>
        obtain ⟨htracks, hcurrent⟩ :=
          hx.register hl hs fun l' => hc n i l' (List.mem_singleton_self _)
        exact ⟨h, htracks, fun _ => hcurrent⟩
      | rebuild index =>
        obtain ⟨htracks, hcurrent⟩ := hx.rebuild hl hs index
        exact ⟨h, htracks, fun _ => hcurrent⟩
      | append f => exact ⟨h.append t f, hx.append hl hs f⟩

/-- Every run keeps the stores in order, and an index current that it keeps up. -/
theorem Tracks.run (hl : l.Reads t) (hx : x.Tracks t h l) {calls : List SharedCall}
    (hcalls : OneLayout t calls l) :
    ∃ h', (x.run t calls).Tracks t h' l ∧
      (x.MaintainsAll t l.name calls → x.Current h l → (x.run t calls).Current h' l) := by
  induction calls generalizing x h with
  | nil => exact ⟨h, hx, fun _ => id⟩
  | cons c calls ih =>
    obtain ⟨h₁, hx₁, hcurrent₁⟩ := hx.call hl (c := c) fun n i l' hmem =>
      hcalls n i l' (List.mem_cons.mpr (.inl (List.mem_singleton.mp hmem)))
    obtain ⟨h₂, hx₂, hcurrent₂⟩ := ih hx₁ fun n i l' hmem =>
      hcalls n i l' (List.mem_cons_of_mem _ hmem)
    exact ⟨h₂, hx₂, fun hmaintains hcurrent =>
      hcurrent₂ hmaintains.2 (hcurrent₁ hmaintains.1 hcurrent)⟩

/-- Every run keeps the stores in order. -/
theorem Records.run (hx : x.Records t h) (calls : List SharedCall) :
    ∃ h', (x.run t calls).Records t h' := by
  induction calls generalizing x h with
  | nil => exact ⟨h, hx⟩
  | cons c calls ih =>
    cases c with
    | openStore => exact ih hx.openStore
    | use n c =>
      cases hs : x.stores[n]? with
      | none =>
        have hcall : x.call t (.use n c) = x := by rw [SharedTable.call, hs]
        rw [SharedTable.run, List.foldl_cons, hcall]
        exact ih hx
      | some s => exact ih (hx.use hs c)

/-- An index that is registered after any calls on the stores of a table is
complete exactly if its tree was empty or complete before. While its name has
stood for one layout it holds nothing but stored identities at their places,
and it lacks none if the calls kept the index up. -/
theorem registerIndex_indexes {calls : List SharedCall}
    (hs : (new.run t calls).stores[n]? = some s) {i : Index} (hl : i.compile t = .ok l) :
    let x := new.run t calls
    ∃ d, s.registerIndex x.directory i =
        (d, .ok ({ s with layouts := s.layouts.insert i.name l }, l)) ∧
      (∀ j, s.Stores d j ↔ s.Stores x.directory j) ∧
      (s.Indexes d l ↔
        (x.directory.indexTree l.treeName).isEmpty = true ∨ s.Indexes x.directory l) ∧
      (OneLayout t calls l →
        (∀ position j, (d.indexTree l.treeName).get? position = some j →
          s.Stores d j ∧ l.positionOfIdentity j = .ok position) ∧
        (new.MaintainsAll t i.name calls → s.Indexes d l)) := by
  intro x
  obtain ⟨h, hrecords⟩ := (tracks_new t l).records.run calls
  obtain ⟨htable, hsound, hrecorded⟩ := hrecords.session hs
  dsimp only at htable hsound hrecorded
  subst htable
  obtain ⟨hname, -, hreads⟩ := Index.reads_of_compile hsound.table hl
  obtain ⟨d, heq, hframe, hcomplete⟩ := registerIndex_of_ok hsound hrecorded hl
  have hfacts : s.facts d = s.facts x.directory := hframe.factTree_eq _
  have hrecorded' : h.RecordedIn s.table (s.facts d) := by rwa [hfacts]
  have hunchanged : (x.directory.indexTree l.treeName).isEmpty = false → d = x.directory := by
    intro hnonempty
    rw [registerIndex_of_nonempty hl hnonempty, Prod.mk.injEq] at heq
    exact heq.1.symm
  refine ⟨d, heq, fun j => ?_, ⟨fun hindexes => ?_, fun hbefore => ?_⟩, fun hone => ?_⟩
  · rw [hrecorded'.stores_iff, hrecorded.stores_iff]
  · cases hempty : (x.directory.indexTree l.treeName).isEmpty with
    | true => exact .inl rfl
    | false => exact .inr (hunchanged hempty ▸ hindexes)
  · rw [hrecorded.indexes_iff hreads] at hbefore
    rw [hrecorded'.indexes_iff hreads]
    exact hcomplete hbefore.symm
  · obtain ⟨h', hx, hcurrent⟩ := (tracks_new s.table l).run hreads hone
    have hrecorded : h'.RecordedIn s.table (s.facts x.directory) := hx.records.recorded
    rw [← hfacts] at hrecorded
    rw [hrecorded.indexes_iff hreads, ← hname]
    cases hempty : (x.directory.indexTree l.treeName).isEmpty with
    | true =>
      have hplaces := (hcomplete (.inr hempty)).congr (hrecorded'.knows_congr hrecorded)
      exact ⟨hrecorded.entry_of_places hreads (fun _ => id) hplaces, fun _ => hplaces⟩
    | false =>
      obtain rfl := hunchanged hempty
      obtain ⟨placed, hplaced, hplaces⟩ := hx.within
      refine ⟨hrecorded.entry_of_places hreads hplaced hplaces, fun hmaintains => ?_⟩
      refine hcurrent hmaintains (fun hregisters => ?_) (by_contra fun hnone => ?_)
      · obtain ⟨l', hl'⟩ := hregisters
        simp [known, new] at hl'
      · have hunused := hx.unused hnone
        rw [show x = new.run s.table calls from rfl, hunused] at hempty
        cases hempty

/-- The layout of the sample index by scope. -/
def sampleLayout : Layout := ⟨"contract_row_by_scope", "contract_row",
  [⟨"code", 0, .string, none, .asc⟩, ⟨"table", 1, .string, none, .asc⟩,
    ⟨"scope", 2, .string, none, .asc⟩, ⟨"primary_key", 3, .uint64, none, .asc⟩]⟩

theorem compile_byScope : Sample.byScope.compile Sample.contractRow = .ok sampleLayout := rfl

/-- A store of the sample table without indexes. -/
def sampleStore : FactStore := ⟨Sample.contractRow, .empty⟩

/-- A fact about a sample identity. -/
def sampleFact (n : UInt64) : Fact :=
  .live (Sample.rowIdentity n) n [.string "payer", .bytes []]

/-- Two stores append a fact each, and both have the index registered. -/
def keptUp : List SharedCall :=
  [.openStore, .use 0 (.register Sample.byScope), .use 0 (.append (sampleFact 1)), .openStore,
    .use 1 (.register Sample.byScope), .use 1 (.append (sampleFact 2)), .openStore]

/-- Two stores append a fact each, and the second one does not know the index. -/
def leftBehind : List SharedCall :=
  [.openStore, .use 0 (.register Sample.byScope), .use 0 (.append (sampleFact 1)), .openStore,
    .use 1 (.append (sampleFact 2))]

/-- Where the second store has registered the index before it appends, a third
store finds both identities. -/
theorem sample_registerIndex_indexes :
    (new.run Sample.contractRow keptUp).stores[2]? = some sampleStore ∧
      Sample.byScope.compile Sample.contractRow = .ok sampleLayout ∧
      OneLayout Sample.contractRow keptUp sampleLayout ∧
      new.MaintainsAll Sample.contractRow Sample.byScope.name keptUp ∧
      ∃ d, (sampleStore.registerIndex (new.run Sample.contractRow keptUp).directory
          Sample.byScope).1 = d ∧ sampleStore.Indexes d sampleLayout ∧
        sampleStore.Stores d (Sample.rowIdentity 1) ∧
        sampleStore.Stores d (Sample.rowIdentity 2) := by
  have hs : (new.run Sample.contractRow keptUp).stores[2]? = some sampleStore := rfl
  have hone : OneLayout Sample.contractRow keptUp sampleLayout := by
    intro n i l hmem _ hl
    obtain rfl : i = Sample.byScope := by
      simp only [keptUp, List.mem_cons, SharedCall.use.injEq, StoreCall.register.injEq,
        reduceCtorEq, and_false, false_or, or_false, List.not_mem_nil] at hmem
      exact hmem.elim And.right And.right
    rw [compile_byScope] at hl
    exact (Except.ok.inj hl).symm
  have hmaintains : new.MaintainsAll Sample.contractRow Sample.byScope.name keptUp :=
    ⟨trivial, trivial, maintains_of_known (by decide +kernel), trivial, trivial,
      maintains_of_known (by decide +kernel), trivial, trivial⟩
  obtain ⟨d, heq, hstores, -, hindexes⟩ := registerIndex_indexes hs compile_byScope
  refine ⟨hs, compile_byScope, hone, hmaintains, d, congrArg Prod.fst heq,
    (hindexes hone).2 hmaintains, ?_, ?_⟩
  · exact (hstores _).mpr ⟨(sampleFact 1).version, [], rfl⟩
  · exact (hstores _).mpr ⟨(sampleFact 2).version, [], rfl⟩

/-- A store that does not know an index leaves it behind, and a registration
that finds entries in the tree takes it as it is. -/
theorem not_registered_index_complete :
    ¬∀ (t : Table) (calls : List SharedCall) (n : Nat) (s s' : FactStore) (i : Index)
      (d : Directory) (l : Layout), (new.run t calls).stores[n]? = some s →
      s.registerIndex (new.run t calls).directory i = (d, .ok (s', l)) → s'.Indexes d l := by
  intro h
  have hindexes := h Sample.contractRow leftBehind 1 sampleStore _ Sample.byScope _ _
    rfl (registerIndex_of_nonempty compile_byScope (by decide +kernel))
  have hget := (hindexes _ (Sample.rowIdentity 2)).mpr
    ⟨⟨(sampleFact 2).version, [], rfl⟩, rfl⟩
  revert hget
  decide +kernel

end SharedTable
end Chronicle
