import Chronicle.Proofs.Sessions

/-!
# Provenance

Sessions on one directory follow each other, and each may define its tables and
indexes anew. What the directory holds comes from facts that some session
appended, under the definition that their table had there. Every stored version
is one of such a fact, and every identity in the tree of an index belongs to
such a fact of a table with an index of this tree. This holds whatever the
sessions define, and whether a registration fails or not. If the identities of a
table have one length, all its facts are still there.
-/

namespace Chronicle

open FactStore

/-- A fact that was stored, with the definition that its table had. -/
structure FiledFact where
  /-- The definition of the table. -/
  table : Table
  /-- The fact. -/
  fact : Fact
  deriving DecidableEq, Repr

/-- What an append files: its fact, if it is stored as a new version. -/
def FactStore.files (s : FactStore) (d : Directory) (f : Fact) : List FiledFact :=
  match (s.append d f).2 with
  | .ok .appended => [⟨s.table, f⟩]
  | _ => []

/-- What a call files. -/
def Database.files (db : Database) : DatabaseCall → List FiledFact
  | .append table f | .appendToStore table f =>
    match db.store table with
    | .ok s => s.files db.directory f
    | .error _ => []
  | _ => []

/-- A session with what it and the earlier ones on its directory have filed. -/
structure Archive where
  /-- The session. -/
  database : Database
  /-- The facts that were filed, the newest first. -/
  facts : List FiledFact
  /-- The indexes that the closed sessions knew. -/
  closed : List Index

/-- What may happen to a directory. -/
inductive ArchiveEvent where
  /-- The session is closed, and a new one is opened. -/
  | reopen
  /-- The session gets a call. -/
  | call (call : DatabaseCall)

namespace Archive

/-- A session on a new directory. -/
def new : Archive := ⟨.ofDirectory .empty, [], []⟩

/-- What an event leaves. -/
def event (x : Archive) : ArchiveEvent → Archive
  | .reopen => ⟨.ofDirectory x.database.directory, x.facts,
      x.database.catalog.indexes.values ++ x.closed⟩
  | .call c => ⟨x.database.call c, x.database.files c ++ x.facts, x.closed⟩

/-- What some events leave. -/
def run (x : Archive) (events : List ArchiveEvent) : Archive := events.foldl event x

/-- Whether some session knew an index, or the present one knows it. -/
def Knows (x : Archive) (i : Index) : Prop := i ∈ x.closed ∨ x.database.catalog.Knows i

end Archive

/-- Whether the trees of some indexes include one of a table and a name. -/
def HasIndexTree (known : Index → Prop) (table tree : String) : Prop :=
  ∃ i, known i ∧ i.table = table ∧ i.treeName = tree

/-- Whether what a directory holds comes from facts that were filed, and is
indexed under the tables of the facts. -/
structure Directory.TracedTo (d : Directory) (facts : List FiledFact) (known : Index → Prop) :
    Prop where
  /-- A version is one of a fact of its table. -/
  fact : ∀ {table e}, e ∈ (d.factTree table).entries →
    ∃ y ∈ facts, y.table.name = table ∧ y.fact.entry = e
  /-- An identity in the tree of an index belongs to a fact of its table. -/
  index : ∀ {tree e}, e ∈ (d.indexTree tree).entries →
    ∃ y ∈ facts, y.fact.identity = e.2 ∧ HasIndexTree known y.table.name tree

/-- The facts that were filed for a table, the newest first. -/
def History.ofFiled (facts : List FiledFact) (table : String) : History :=
  (facts.filter (·.table.name = table)).map (·.fact)

/-- Whether a directory holds the facts that were filed for each table whose
identities have one length. Keys of identities of several lengths may be taken
for each other. -/
def Directory.Holds (d : Directory) (facts : List FiledFact) : Prop :=
  ∀ table length, (∀ f ∈ History.ofFiled facts table, f.identity.length = length) →
    (History.ofFiled facts table).HeldIn (d.factTree table)

namespace FactStore

variable {s : FactStore} {d : Directory} {l : Layout}

/-- An append stores its fact, which fits the table and is placed in every
registered index, or it changes nothing. -/
theorem append_cases (hs : s.Sound) (d : Directory) (f : Fact) :
    (s.append d f).1 = d ∧ s.files d f = [] ∨
      f.Fits s.table ∧ s.judge d f = .ok .appended ∧ s.files d f = [⟨s.table, f⟩] ∧
        (s.append d f).1 =
          s.record (s.layouts.values.foldl (Layout.placeIdentity f.identity) d) f := by
  rw [files, append]
  cases hjudge : s.judge d f with
  | error e => exact .inl ⟨rfl, rfl⟩
  | ok outcome =>
    cases outcome with
    | unchanged => exact .inl ⟨rfl, rfl⟩
    | appended =>
      have hfits := History.fits_of_judge hjudge
      dsimp only
      rw [Layout.indexAll_eq (fun l hl => hs.reads_of_mem hl) hfits.1]
      exact .inr ⟨hfits, rfl, rfl, rfl⟩

/-- An append that fails leaves the directory. -/
theorem append_of_error (hs : s.Sound) {f : Fact} {e : Error} (h : (s.append d f).2 = .error e) :
    (s.append d f).1 = d := by
  obtain ⟨hd, -⟩ | ⟨-, -, hfiles, -⟩ := append_cases hs d f
  · exact hd
  · rw [files, h] at hfiles
    cases hfiles

/-- Placing identities adds no others to a tree, whether each has a place or not. -/
theorem mem_placeAll {previous : Option Bytes} {tree : IndexTree}
    {entries : List (Bytes × StoredFact)} {e : Bytes × Tuple}
    (he : e ∈ (placeAll l previous tree entries).1.entries) :
    e ∈ tree.entries ∨ ∃ stored ∈ entries, stored.2.identity = e.2 := by
  induction entries generalizing previous tree with
  | nil => exact .inl he
  | cons first entries ih =>
    have hlater : (∃ stored ∈ entries, stored.2.identity = e.2) →
        ∃ stored ∈ first :: entries, stored.2.identity = e.2 := fun ⟨stored, hmem, hstored⟩ =>
      ⟨stored, List.mem_cons_of_mem _ hmem, hstored⟩
    obtain ⟨key, stored⟩ := first
    rw [placeAll] at he
    dsimp only at he
    split at he
    · exact (ih he).imp_right hlater
    · split at he
      · exact .inl he
      · obtain hmem | hmem := ih he
        · obtain rfl | ⟨-, hmem⟩ := SortedMap.mem_entries_insert.mp hmem
          · exact .inr ⟨_, List.mem_cons_self .., rfl⟩
          · exact .inl hmem
        · exact .inr (hlater hmem)

end FactStore

/-- An append to a table fails and leaves the session as it is, or the store of
the table has appended the fact, and the head block is raised. -/
theorem Database.append_cases {db : Database} (h : db.Opened) (table : String) (f : Fact) :
    (∃ e, db.append table f = (db, .error e)) ∨
      ∃ s outcome, db.stores.get? table = some s ∧ (s.append db.directory f).2 = .ok outcome ∧
        db.append table f =
          ({ db with directory := (s.append db.directory f).1.advance f.block }, .ok outcome) := by
  rw [append]
  cases hs : db.store table with
  | error e => exact .inl ⟨e, rfl⟩
  | ok s =>
    have hs := store_eq_ok.mp hs
    have herror := fun e => append_of_error (d := db.directory) (f := f) (e := e) (h.sound hs)
    dsimp only
    cases hresult : s.append db.directory f with
    | mk d result =>
      rw [hresult] at herror
      cases result with
      | error e =>
        have hd : d = db.directory := herror e rfl
        exact .inl ⟨e, by rw [hd]⟩
      | ok outcome => exact .inr ⟨s, outcome, hs, congrArg Prod.snd hresult, by rw [hresult]⟩

namespace Directory.TracedTo

variable {d : Directory} {facts : List FiledFact} {known : Index → Prop} {s : FactStore}

theorem mono (h : d.TracedTo facts known) {more : List FiledFact} (hfacts : facts ⊆ more)
    {wider : Index → Prop} (hknown : ∀ i, known i → wider i) : d.TracedTo more wider := by
  refine ⟨fun he => ?_, fun he => ?_⟩
  · obtain ⟨y, hy, hfact⟩ := h.fact he
    exact ⟨y, hfacts hy, hfact⟩
  · obtain ⟨y, hy, hidentity, i, hi, htree⟩ := h.index he
    exact ⟨y, hfacts hy, hidentity, i, hknown i hi, htree⟩

/-- An index tree may be replaced by one with identities of facts of its table. -/
theorem setIndexTree (h : d.TracedTo facts known) {table name : String} {tree : IndexTree}
    (hname : HasIndexTree known table name)
    (htree : ∀ e ∈ tree.entries, e ∈ (d.indexTree name).entries ∨
      ∃ y ∈ facts, y.table.name = table ∧ y.fact.identity = e.2) :
    (d.setIndexTree name tree).TracedTo facts known := by
  refine ⟨fun he => h.fact he, fun {other e} he => ?_⟩
  by_cases hother : other = name
  · rw [hother, indexTree_setIndexTree_self] at he
    obtain he | ⟨y, hy, rfl, hidentity⟩ := htree e he
    · exact hother ▸ h.index he
    · exact ⟨y, hy, hidentity, hother ▸ hname⟩
  · rw [indexTree_setIndexTree_of_ne d hother] at he
    exact h.index he

theorem placeIdentity (h : d.TracedTo facts known) {y : FiledFact} (hy : y ∈ facts) {l : Layout}
    (hl : HasIndexTree known y.table.name l.treeName) :
    (l.placeIdentity y.fact.identity d).TracedTo facts known := by
  rw [Layout.placeIdentity]
  split
  · exact h
  · refine h.setIndexTree hl fun e he => ?_
    obtain rfl | ⟨-, he⟩ := SortedMap.mem_entries_insert.mp he
    · exact .inr ⟨y, hy, rfl, rfl⟩
    · exact .inl he

theorem foldl_placeIdentity (h : d.TracedTo facts known) {y : FiledFact} (hy : y ∈ facts)
    {layouts : List Layout} (hl : ∀ l ∈ layouts, HasIndexTree known y.table.name l.treeName) :
    (layouts.foldl (Layout.placeIdentity y.fact.identity) d).TracedTo facts known := by
  induction layouts generalizing d with
  | nil => exact h
  | cons l layouts ih =>
    obtain ⟨hfirst, hrest⟩ := List.forall_mem_cons.mp hl
    exact ih (h.placeIdentity hy hfirst) hrest

/-- A fact that is filed may be stored. -/
theorem record (h : d.TracedTo facts known) {f : Fact} (hf : ⟨s.table, f⟩ ∈ facts) :
    (s.record d f).TracedTo facts known := by
  refine ⟨fun {table e} he => ?_, fun he => h.index he⟩
  by_cases htable : table = s.table.name
  · rw [FactStore.record, htable, factTree_setFactTree_self, SortedMap.mem_entries_insert] at he
    obtain rfl | ⟨-, he⟩ := he
    · exact ⟨_, hf, htable.symm, rfl⟩
    · exact htable ▸ h.fact he
  · rw [FactStore.record, factTree_setFactTree_of_ne d htable] at he
    exact h.fact he

/-- An append leaves nothing that is not filed. -/
theorem append (h : d.TracedTo facts known) (hs : s.Sound)
    (hlayouts : ∀ l ∈ s.layouts.values, HasIndexTree known s.table.name l.treeName) (f : Fact) :
    (s.append d f).1.TracedTo (s.files d f ++ facts) known := by
  obtain ⟨hsame, hfiles⟩ | ⟨-, -, hfiles, hdirectory⟩ := append_cases hs d f
  · rw [hsame, hfiles]
    exact h
  · rw [hdirectory, hfiles]
    have hmem : (⟨s.table, f⟩ : FiledFact) ∈ [⟨s.table, f⟩] ++ facts := List.mem_cons_self ..
    have hbefore := h.mono (List.subset_append_right [⟨s.table, f⟩] facts) fun _ => id
    exact (hbefore.foldl_placeIdentity hmem hlayouts).record hmem

/-- Building an index places identities of facts of its table. -/
theorem buildIndex (h : d.TracedTo facts known) {l : Layout}
    (hl : HasIndexTree known s.table.name l.treeName) {start : IndexTree}
    (hstart : ∀ e ∈ start.entries, e ∈ (d.indexTree l.treeName).entries) :
    (s.buildIndex d l start).1.TracedTo facts known := by
  refine h.setIndexTree hl fun e he => (mem_placeAll he).imp (hstart e) ?_
  rintro ⟨stored, hstored, hidentity⟩
  obtain ⟨y, hy, hname, rfl⟩ := h.fact hstored
  exact ⟨y, hy, hname, hidentity⟩

theorem registerIndex (h : d.TracedTo facts known) (hs : s.Sound) {i : Index} (hi : known i) :
    (s.registerIndex d i).1.TracedTo facts known := by
  cases hl : i.compile s.table with
  | error e =>
    rw [registerIndex_of_error hl]
    exact h
  | ok l =>
    obtain ⟨-, htable, -⟩ := Index.reads_of_compile hs.table hl
    rw [FactStore.registerIndex, hl]
    dsimp only
    split
    · exact h.buildIndex ⟨i, hi, htable, (Index.treeName_eq hs.table hl).symm⟩ fun _ => id
    · exact h

theorem rebuildIndex (h : d.TracedTo facts known)
    (hlayouts : ∀ l ∈ s.layouts.values, HasIndexTree known s.table.name l.treeName)
    (index : String) : (s.rebuildIndex d index).1.TracedTo facts known := by
  cases hl : s.layouts.get? index with
  | none =>
    rw [rebuildIndex_of_none hl]
    exact h
  | some l =>
    rw [FactStore.rebuildIndex, layout_eq_ok.mpr hl]
    exact h.buildIndex (hlayouts l (mem_values_iff.mpr ⟨index, hl⟩)) (by simp [SortedMap.empty])

end Directory.TracedTo

namespace Directory.Holds

variable {d d' : Directory} {facts : List FiledFact}

theorem of_factTree (h : d.Holds facts) (hd : ∀ table, d'.factTree table = d.factTree table) :
    d'.Holds facts := fun table length hlength => hd table ▸ h table length hlength

/-- An append stores what it files, and no version is overwritten. -/
theorem append {s : FactStore} (h : d.Holds facts) (hs : s.Sound) (f : Fact) :
    (s.append d f).1.Holds (s.files d f ++ facts) := by
  obtain ⟨hsame, hfiles⟩ | ⟨hfits, hjudge, hfiles, hdirectory⟩ := append_cases hs d f
  · rw [hsame, hfiles]
    exact h
  · rw [hfiles]
    intro table length hlength
    by_cases htable : table = s.table.name
    · have hhistory : History.ofFiled ([⟨s.table, f⟩] ++ facts) table =
          f :: History.ofFiled facts table := by
        simp [History.ofFiled, htable]
      rw [hhistory] at hlength ⊢
      obtain ⟨hfirst, hrest⟩ := List.forall_mem_cons.mp hlength
      have hlen : ∀ g ∈ History.ofFiled facts table, f.identity.length = g.identity.length :=
        fun g hg => hfirst.trans (hrest g hg).symm
      subst htable
      have hheld : (History.ofFiled facts s.table.name).HeldIn (s.facts d) := h _ length hrest
      have hverdict := hheld.judge_eq fun _ => hlen
      rw [hjudge] at hverdict
      have hblock := (History.block_lt_of_judge (Option.some.inj hverdict).symm hheld.newestFirst).2
      have hframe := Layout.reindexed_foldl_placeIdentity f.identity s.layouts.values d
      rw [hdirectory, record, FactStore.facts, hframe.factTree_eq, factTree_setFactTree_self]
      exact hheld.cons hlen hblock
    · have hhistory : History.ofFiled ([⟨s.table, f⟩] ++ facts) table =
          History.ofFiled facts table := by
        simp [History.ofFiled, Ne.symm htable]
      rw [hhistory] at hlength ⊢
      rw [(append_frame s d f).1 table htable]
      exact h table length hlength

end Directory.Holds

namespace Archive

variable {db : Database} {facts : List FiledFact} {closed : List Index} {x : Archive}

/-- A session in order on a directory whose contents come from the facts that
were filed. -/
structure Traced (x : Archive) : Prop where
  /-- The stores are in order. -/
  opened : x.database.Opened
  /-- A fact fits the definition that its table had. -/
  fits : ∀ y ∈ x.facts, y.table.Sound ∧ y.fact.Fits y.table
  /-- What is stored comes from the facts. -/
  traced : x.database.directory.TracedTo x.facts x.Knows
  /-- What comes from the facts is stored. -/
  holds : x.database.directory.Holds x.facts

namespace Traced

theorem new : Archive.new.Traced :=
  ⟨.ofDirectory _, by simp [Archive.new], ⟨nofun, nofun⟩, fun _ _ _ => ⟨.nil, fun e => by
    simp [Archive.new, History.ofFiled, Database.ofDirectory, SortedMap.empty]⟩⟩

/-- The trees of registered layouts are those of indexes of the catalog. -/
theorem hasIndexTree (h : x.Traced) {name : String} {s : FactStore}
    (hs : x.database.stores.get? name = some s) :
    ∀ l ∈ s.layouts.values, HasIndexTree x.Knows s.table.name l.treeName := by
  intro l hl
  obtain ⟨index, hl⟩ := mem_values_iff.mp hl
  obtain ⟨i, hi, htable, htree⟩ := h.opened.exists_treeName hs hl
  exact ⟨i, .inr hi, htable.trans (h.opened.table_name hs).symm, htree⟩

/-- A session that is opened knows nothing and stores what was stored. -/
theorem reopen (h : x.Traced) : (x.event .reopen).Traced := by
  refine ⟨.ofDirectory _, h.fits, h.traced.mono (fun _ => id) fun i hi => .inl ?_, h.holds⟩
  obtain hi | hi := hi
  · exact List.mem_append_right _ hi
  · exact List.mem_append_left _ hi.mem_values

theorem registerTable (h : Traced ⟨db, facts, closed⟩) {t : Table} {db' : Database}
    {s : FactStore} (hdb : db.registerTable t = .ok (db', s)) : Traced ⟨db', facts, closed⟩ := by
  have hsame : db'.directory = db.directory := by
    obtain ⟨catalog, -, ⟨-, rfl⟩ | ⟨-, rfl⟩⟩ := Database.registerTable_eq_ok hdb <;> rfl
  have htraced : db.directory.TracedTo facts (Knows ⟨db', facts, closed⟩) :=
    h.traced.mono (fun _ => id) fun i hi => hi.imp_right (Database.extends_registerTable hdb).knows
  rw [← hsame] at htraced
  exact ⟨h.opened.registerTable hdb, h.fits, htraced, h.holds.of_factTree fun _ => by rw [hsame]⟩

theorem registerIndex (h : Traced ⟨db, facts, closed⟩) (i : Index) :
    Traced ⟨(db.registerIndex i).1, facts, closed⟩ := by
  cases hc : db.catalog.addIndex i with
  | error e =>
    rw [Database.registerIndex_of_error hc]
    exact h
  | ok result =>
    obtain ⟨l, catalog⟩ := result
    obtain ⟨⟨t, ht, hl⟩, -⟩ := Catalog.addIndex_eq_ok hc
    obtain ⟨s, hs⟩ := h.opened.table_store ht
    obtain rfl := Option.some.inj ((h.opened.store_table hs).symm.trans ht)
    have hcatalog := Database.catalog_registerIndex hc
    have hdirectory : (db.registerIndex i).1.directory = (s.registerIndex db.directory i).1 := by
      obtain hcall | ⟨s', l', -, hcall⟩ := Database.registerIndex_of_store hc hs <;> rw [hcall]
    have hknows : Knows ⟨(db.registerIndex i).1, facts, closed⟩ i :=
      .inr (hcatalog ▸ Catalog.knows_of_addIndex hc)
    have htraced : db.directory.TracedTo facts (Knows ⟨(db.registerIndex i).1, facts, closed⟩) :=
      h.traced.mono (fun _ => id) fun j hj =>
        hj.imp_right (Database.extends_registerIndex db i).knows
    refine ⟨h.opened.registerIndex i, h.fits, ?_, h.holds.of_factTree fun table => ?_⟩
    all_goals dsimp only; rw [hdirectory]
    · exact htraced.registerIndex (h.opened.sound hs) hknows
    · exact (registerIndex_frame hl).1.factTree_eq table

theorem install (h : Traced ⟨db, facts, closed⟩) (queries : List QueryDefinition) :
    Traced ⟨(db.install queries).1, facts, closed⟩ := by
  have hopened := h.opened.install queries
  rw [Database.install] at hopened ⊢
  cases hprepared : Registry.prepare db.catalog queries with
  | error e => exact h
  | ok r =>
    rw [hprepared] at hopened
    exact ⟨hopened, h.fits, h.traced, h.holds⟩

/-- Changing a directory by what is filed keeps a session traced. -/
theorem withDirectory (h : Traced ⟨db, facts, closed⟩) {d : Directory} {more : List FiledFact}
    (hfits : ∀ y ∈ more, y.table.Sound ∧ y.fact.Fits y.table)
    (hd : d.TracedTo (more ++ facts) (Knows ⟨db, facts, closed⟩))
    (hholds : d.Holds (more ++ facts)) :
    Traced ⟨{ db with directory := d }, more ++ facts, closed⟩ := by
  refine ⟨h.opened.withDirectory d, fun y hy => ?_, hd, hholds⟩
  obtain hy | hy := List.mem_append.mp hy
  · exact hfits y hy
  · exact h.fits y hy

/-- An append to the store of a table files what it stores. -/
theorem append (h : Traced ⟨db, facts, closed⟩) {name : String} {s : FactStore}
    (hs : db.stores.get? name = some s) (f : Fact) {d : Directory}
    (hfacts : ∀ table, d.factTree table = (s.append db.directory f).1.factTree table)
    (hindexes : ∀ tree, d.indexTree tree = (s.append db.directory f).1.indexTree tree) :
    Traced ⟨{ db with directory := d }, s.files db.directory f ++ facts, closed⟩ := by
  have hsound := h.opened.sound hs
  have htraced := h.traced.append hsound (h.hasIndexTree hs) f
  refine h.withDirectory (fun y hy => ?_)
    ⟨fun he => htraced.fact (hfacts _ ▸ he), fun he => htraced.index (hindexes _ ▸ he)⟩
    ((h.holds.append hsound f).of_factTree hfacts)
  obtain ⟨-, hfiles⟩ | ⟨hfits, -, hfiles, -⟩ := append_cases hsound db.directory f
  · rw [hfiles] at hy
    cases hy
  · rw [hfiles] at hy
    obtain rfl := List.mem_singleton.mp hy
    exact ⟨hsound.table, hfits⟩

/-- Every call keeps a session traced. -/
theorem call (h : x.Traced) (c : DatabaseCall) : (x.event (.call c)).Traced := by
  obtain ⟨db, facts, closed⟩ := x
  rw [event]
  cases c with
  | registerTable t =>
    dsimp only [Database.call, Database.files, List.nil_append]
    cases ht : db.registerTable t with
    | error e => exact h
    | ok result => exact h.registerTable ht
  | registerIndex i => exact h.registerIndex i
  | load c =>
    exact Database.loadConfiguration_induction (P := fun db => Traced ⟨db, facts, closed⟩)
      (fun h ht => h.registerTable ht) (fun i h => h.registerIndex i)
      (fun queries h => h.install queries) h c
  | append table f =>
    dsimp only [Database.call, Database.files, Database.append]
    cases hs : db.store table with
    | error e => exact h
    | ok s =>
      have happend := fun d => h.append (Database.store_eq_ok.mp hs) f (d := d)
      dsimp only
      cases hresult : s.append db.directory f with
      | mk d r =>
        rw [hresult] at happend
        cases r with
        | error e => exact happend d (fun _ => rfl) fun _ => rfl
        | ok outcome => exact happend _ (fun _ => rfl) fun _ => rfl
  | setHeadBlock block =>
    exact h.withDirectory (by simp [Database.files]) ⟨h.traced.fact, h.traced.index⟩
      (h.holds.of_factTree fun _ => rfl)
  | appendToStore table f =>
    dsimp only [Database.call, Database.files]
    cases hs : db.store table with
    | error e => exact h
    | ok s => exact h.append (Database.store_eq_ok.mp hs) f (fun _ => rfl) fun _ => rfl
  | rebuildIndex table index =>
    dsimp only [Database.call, Database.files]
    cases hs : db.store table with
    | error e => exact h
    | ok s =>
      have hs := Database.store_eq_ok.mp hs
      refine h.withDirectory (by simp) (h.traced.rebuildIndex (h.hasIndexTree hs) index)
        (h.holds.of_factTree fun other => ?_)
      cases hl : s.layouts.get? index with
      | none => rw [rebuildIndex_of_none hl]
      | some l => exact (rebuildIndex_frame hl).factTree_eq other

/-- Whatever happens, what is stored comes from facts that were filed. -/
theorem run (h : x.Traced) (events : List ArchiveEvent) : (x.run events).Traced := by
  induction events generalizing x with
  | nil => exact h
  | cons e events ih =>
    cases e with
    | reopen => exact ih h.reopen
    | call c => exact ih (h.call c)

end Traced

/-- What a call files, it files under a definition of the catalog. -/
theorem table_of_mem_files (h : db.Opened) {c : DatabaseCall} {y : FiledFact}
    (hy : y ∈ db.files c) : db.catalog.tables.get? y.table.name = some y.table := by
  have hstore : ∀ {name : String} {s : FactStore} {f : Fact}, db.store name = .ok s →
      y ∈ s.files db.directory f → db.catalog.tables.get? y.table.name = some y.table := by
    intro name s f hs hy
    have hs := Database.store_eq_ok.mp hs
    rw [FactStore.files] at hy
    split at hy
    · obtain rfl := List.mem_singleton.mp hy
      rw [h.table_name hs]
      exact h.store_table hs
    · cases hy
  cases c with
  | append table f | appendToStore table f =>
    rw [Database.files] at hy
    split at hy
    · exact hstore ‹_› hy
    · cases hy
  | registerTable _ | registerIndex _ | load _ | setHeadBlock _ | rebuildIndex _ _ => cases hy

/-- Calls file facts under definitions that the session keeps. -/
theorem table_of_mem_run {calls : List DatabaseCall} (h : x.database.Opened)
    (hx : ∀ y ∈ x.facts, x.database.catalog.tables.get? y.table.name = some y.table) :
    ∀ y ∈ (x.run (calls.map .call)).facts,
      (x.run (calls.map .call)).database.catalog.tables.get? y.table.name = some y.table := by
  induction calls generalizing x with
  | nil => exact hx
  | cons c calls ih =>
    refine ih (h.call c) fun y hy => (Database.extends_call x.database c).table ?_
    obtain hy | hy := List.mem_append.mp hy
    · exact table_of_mem_files h hy
    · exact hx y hy

end Archive
end Chronicle
