import Chronicle.Proofs.AtomicLoads
import Chronicle.Proofs.RedefinedTables

/-!
# Head blocks

The head block is stored beside the facts and raised after each append. Unless
it is set, or facts are appended to a store directly, it is the latest block of
a stored version, over all tables and sessions. A query that is limited to the
head then sees what a query without a limit sees, as long as the identities of
its tables have one length: keys of identities of other lengths may be taken for
versions of the present ones, of other blocks than their own.
-/

namespace Chronicle

open FactStore

/-- A maximum of blocks is an upper bound among them. -/
instance lawfulOrderMax : Std.LawfulOrderMax UInt64 where
  max_eq_or a b := by
    rw [UInt64.max_def]
    split
    · exact .inr rfl
    · exact .inl rfl
  max_le_iff a b c := by
    simp only [UInt64.le_iff_toNat_le, UInt64.toNat_max]
    omega

namespace Directory

variable {d d' : Directory} {b : UInt64}

/-- The blocks of the stored versions of all tables. -/
def blocks (d : Directory) : List UInt64 :=
  d.facts.keys.flatMap fun table => (d.history table).map (·.block)

/-- The latest block of a stored version, or 0 if there is none. -/
def latestBlock (d : Directory) : UInt64 := d.blocks.max?.getD 0

/-- Whether a fact tree holds a version of a block, by its keys. -/
def HasBlock (tree : FactTree) (b : UInt64) : Prop :=
  ∃ e ∈ tree.entries, ∃ present, Key.version? e.1 = some (b, present)

theorem exists_mem_history_iff {table : String} :
    (∃ f ∈ d.history table, f.block = b) ↔ HasBlock (d.factTree table) b := by
  constructor
  · rintro ⟨f, hf, rfl⟩
    obtain ⟨e, he, hfact⟩ := List.mem_filterMap.mp hf
    obtain ⟨⟨block, present⟩, hversion, rfl⟩ := Option.map_eq_some_iff.mp hfact
    exact ⟨e, he, present, hversion⟩
  · rintro ⟨e, he, present, hversion⟩
    have hfact : Fact.ofEntry? e = some ⟨e.2.identity, b, present, e.2.payload⟩ := by
      rw [Fact.ofEntry?, hversion]
      rfl
    exact ⟨_, List.mem_filterMap.mpr ⟨e, he, hfact⟩, rfl⟩

/-- The blocks are those under which some tree holds a version. -/
theorem mem_blocks : b ∈ d.blocks ↔ ∃ table, HasBlock (d.factTree table) b := by
  rw [blocks, List.mem_flatMap]
  constructor
  · rintro ⟨table, -, hb⟩
    exact ⟨table, exists_mem_history_iff.mp (List.mem_map.mp hb)⟩
  · rintro ⟨table, hb⟩
    obtain ⟨f, hf, hblock⟩ := exists_mem_history_iff.mpr hb
    exact ⟨table, mem_keys_of_mem_history hf, List.mem_map.mpr ⟨f, hf, hblock⟩⟩

/-- The latest block is an upper bound that is reached, unless there is none. -/
theorem latestBlock_eq_iff :
    d.latestBlock = b ↔ (∀ a ∈ d.blocks, a ≤ b) ∧ (b = 0 ∨ b ∈ d.blocks) := by
  rw [latestBlock]
  cases hmax : d.blocks.max? with
  | none =>
    rw [List.max?_eq_none_iff.mp hmax]
    simp [eq_comm]
  | some latest =>
    obtain ⟨hmem, hle⟩ := List.max?_eq_some_iff.mp hmax
    rw [Option.getD_some]
    constructor
    · rintro rfl
      exact ⟨hle, .inr hmem⟩
    · rintro ⟨hupper, hzero | hb⟩
      · exact UInt64.le_antisymm (hupper latest hmem) (hzero ▸ UInt64.zero_le)
      · exact UInt64.le_antisymm (hupper latest hmem) (hle b hb)

theorem le_latestBlock (hb : b ∈ d.blocks) : b ≤ d.latestBlock :=
  (latestBlock_eq_iff.mp rfl).1 b hb

/-- Directories with the same facts have one latest block. -/
theorem latestBlock_congr (h : ∀ table, d'.factTree table = d.factTree table) :
    d'.latestBlock = d.latestBlock := by
  have hmem : ∀ b, b ∈ d'.blocks ↔ b ∈ d.blocks := fun b => by
    simp only [mem_blocks, h]
  obtain ⟨hle, hreached⟩ := latestBlock_eq_iff.mp (rfl : d.latestBlock = _)
  exact latestBlock_eq_iff.mpr
    ⟨fun a ha => hle a ((hmem a).mp ha), hreached.imp_right (hmem _).mpr⟩

/-- The entry of a fact adds its block to a tree. An entry that it replaces has
this block too, since its key tells it. -/
theorem hasBlock_insert_entry {tree : FactTree} {f : Fact} :
    HasBlock (tree.insert f.entry.1 f.entry.2) b ↔ HasBlock tree b ∨ b = f.block := by
  have hversion : Key.version? f.entry.1 = some (f.block, f.present) := by
    rw [Fact.entry, Key.version?_ofVersion]
  constructor
  · rintro ⟨e, he, present, hb⟩
    obtain he | ⟨-, he⟩ := SortedMap.mem_entries_insert.mp he
    · rw [he, hversion] at hb
      exact .inr (Prod.ext_iff.mp (Option.some.inj hb)).1.symm
    · exact .inl ⟨e, he, present, hb⟩
  · have hinserted : HasBlock (tree.insert f.entry.1 f.entry.2) f.block :=
      ⟨f.entry, SortedMap.mem_entries_insert.mpr (.inl rfl), f.present, hversion⟩
    rintro (⟨e, he, present, hb⟩ | rfl)
    · by_cases hkey : e.1 = f.entry.1
      · rw [hkey, hversion] at hb
        obtain rfl := (Prod.ext_iff.mp (Option.some.inj hb)).1
        exact hinserted
      · exact ⟨e, SortedMap.mem_entries_insert.mpr (.inr ⟨hkey, he⟩), present, hb⟩
    · exact hinserted

/-- A version that is recorded adds its block. -/
theorem mem_blocks_record {s : FactStore} {f : Fact} :
    b ∈ (s.record d f).blocks ↔ b ∈ d.blocks ∨ b = f.block := by
  have hself : ∀ {b}, HasBlock ((s.record d f).factTree s.table.name) b ↔
      HasBlock (d.factTree s.table.name) b ∨ b = f.block := by
    rw [record, factTree_setFactTree_self]
    exact hasBlock_insert_entry
  have hother : ∀ {table}, table ≠ s.table.name →
      (s.record d f).factTree table = d.factTree table := fun hne =>
    factTree_setFactTree_of_ne _ hne _
  simp only [mem_blocks]
  constructor
  · rintro ⟨table, hb⟩
    by_cases htable : table = s.table.name
    · subst htable
      exact (hself.mp hb).imp_left fun hb => ⟨_, hb⟩
    · exact .inl ⟨table, hother htable ▸ hb⟩
  · rintro (⟨table, hb⟩ | rfl)
    · by_cases htable : table = s.table.name
      · subst htable
        exact ⟨_, hself.mpr (.inl hb)⟩
      · exact ⟨table, hother htable ▸ hb⟩
    · exact ⟨_, hself.mpr (.inr rfl)⟩

theorem latestBlock_record {s : FactStore} {f : Fact} :
    (s.record d f).latestBlock = max d.latestBlock f.block := by
  obtain ⟨-, hreached⟩ := latestBlock_eq_iff.mp (rfl : d.latestBlock = _)
  refine latestBlock_eq_iff.mpr ⟨fun a ha => ?_, ?_⟩
  · obtain ha | rfl := mem_blocks_record.mp ha
    · exact UInt64.le_trans (le_latestBlock ha) Std.left_le_max
    · exact Std.right_le_max
  · obtain hmax | hmax := Std.max_eq_or (a := d.latestBlock) (b := f.block)
    · rw [hmax]
      exact hreached.imp_right fun hb => mem_blocks_record.mpr (.inl hb)
    · rw [hmax]
      exact .inr (mem_blocks_record.mpr (.inr rfl))

end Directory

namespace FactStore

variable {s : FactStore} {d : Directory} {f : Fact}

/-- The newest of some versions is stored under its block. -/
theorem hasBlock_of_newest {tree : FactTree} {entries : List (Bytes × StoredFact)}
    (hentries : ∀ e ∈ entries, e ∈ tree.entries) {v : Version}
    (hv : newest entries = .ok (some v)) : Directory.HasBlock tree v.block := by
  cases entries with
  | nil => cases hv
  | cons e entries =>
    rw [newest, readVersion] at hv
    cases hversion : Key.version? e.1 with
    | none => simp [hversion, Except.map] at hv
    | some version =>
      simp only [hversion, Except.map, Except.ok.injEq, Option.some.injEq] at hv
      subst hv
      exact ⟨e, hentries e List.mem_cons_self, version.2, hversion⟩

/-- The block of a fact that states the latest version again is stored. -/
theorem mem_blocks_of_unchanged (h : s.judge d f = .ok .unchanged) : f.block ∈ d.blocks := by
  rw [History.judge_eq_of_fits (History.fits_of_judge h)] at h
  cases hnewest : newest (s.versionEntries d (Key.ofIdentity f.identity)
      (Key.ofIdentity f.identity)) with
  | error e => simp [hnewest, Except.bind] at h
  | ok latest =>
    rw [hnewest] at h
    dsimp only [Except.bind] at h
    cases latest with
    | none => cases h
    | some v =>
      have hstored : Directory.HasBlock (s.facts d) v.block :=
        hasBlock_of_newest (fun e he => (SortedMap.mem_between.mp he).1) hnewest
      have hblock : f.block = v.block := by
        rw [judgeLatest] at h
        split at h
        · cases h
        · split at h
          · cases h
          · rename_i hlt hgt
            exact UInt64.le_antisymm (UInt64.not_lt.mp hgt) (UInt64.not_lt.mp hlt)
      rw [hblock]
      exact Directory.mem_blocks.mpr ⟨_, hstored⟩

/-- After an append that succeeds the latest block is at least that of the fact. -/
theorem latestBlock_append (hs : s.Sound) {outcome : AppendOutcome}
    (h : (s.append d f).2 = .ok outcome) :
    (s.append d f).1.latestBlock = max d.latestBlock f.block := by
  obtain ⟨hd, hfiles⟩ | ⟨-, -, -, hd⟩ := append_cases hs d f
  · have hunchanged : s.judge d f = .ok .unchanged := by
      rw [files, h] at hfiles
      cases outcome with
      | appended => cases hfiles
      | unchanged =>
        rw [append] at h
        cases hjudge : s.judge d f with
        | error e => simp [hjudge] at h
        | ok judged =>
          cases judged with
          | unchanged => rfl
          | appended =>
            rw [hjudge] at h
            dsimp only at h
            split at h <;> cases h
    have hle := Directory.le_latestBlock (mem_blocks_of_unchanged hunchanged)
    rw [hd, UInt64.max_def]
    split
    · exact UInt64.le_antisymm ‹_› hle
    · rfl
  · have hplaced := Layout.reindexed_foldl_placeIdentity f.identity s.layouts.values d
    rw [hd, Directory.latestBlock_record, Directory.latestBlock_congr hplaced.factTree_eq]

end FactStore

namespace Database

variable {db : Database} {table : String} {f : Fact}

/-- An append that fails leaves the head block, and one that succeeds raises it
to its block. -/
theorem headBlock_append (h : db.Opened) (table : String) (f : Fact) :
    (∀ e, (db.append table f).2 = .error e → (db.append table f).1.headBlock = db.headBlock) ∧
      ∀ outcome, (db.append table f).2 = .ok outcome →
        (db.append table f).1.headBlock = max db.headBlock f.block := by
  obtain ⟨e, hresult⟩ | ⟨s, outcome, -, -, hresult⟩ := append_cases h table f
  · rw [hresult]
    exact ⟨fun _ _ => rfl, nofun⟩
  · rw [hresult]
    exact ⟨nofun, fun _ _ => congrArg (max · f.block) (append_frame s db.directory f).2.2⟩

/-- An append keeps the head block on the latest block. -/
theorem headBlock_append_eq_latestBlock (h : db.Opened)
    (hhead : db.headBlock = db.directory.latestBlock) (table : String) (f : Fact) :
    (db.append table f).1.headBlock = (db.append table f).1.directory.latestBlock := by
  obtain ⟨e, hresult⟩ | ⟨s, outcome, hs, hok, hresult⟩ := append_cases h table f
  · rw [hresult]
    exact hhead
  · calc (db.append table f).1.headBlock
        = max db.headBlock f.block := (headBlock_append h table f).2 outcome (by rw [hresult])
      _ = (s.append db.directory f).1.latestBlock := by
        rw [hhead, latestBlock_append (h.sound hs) hok]
      _ = (db.append table f).1.directory.latestBlock := by
        rw [hresult]
        exact Directory.latestBlock_congr fun _ => rfl

/-- Registering an index leaves the facts and the head block. -/
theorem reindexed_registerIndex (db : Database) (i : Index) :
    db.directory.Reindexed (fun _ => True) (db.registerIndex i).1.directory := by
  have hstore : ∀ s : FactStore,
      db.directory.Reindexed (fun _ => True) (s.registerIndex db.directory i).1 := fun s => by
    cases hl : i.compile s.table with
    | error e =>
      rw [FactStore.registerIndex_of_error hl]
      exact .refl
    | ok l => exact (FactStore.registerIndex_frame hl).1.mono fun _ _ => trivial
  rw [registerIndex]
  split
  · exact .refl
  · dsimp only
    split
    · exact .refl
    · rename_i s hs
      have hs := hstore s
      cases hresult : s.registerIndex db.directory i with
      | mk d result =>
        rw [hresult] at hs
        cases result <;> exact hs

/-- So does rebuilding one. -/
theorem reindexed_rebuildIndex (s : FactStore) (d : Directory) (index : String) :
    d.Reindexed (fun _ => True) (s.rebuildIndex d index).1 := by
  cases hl : s.layouts.get? index with
  | none =>
    rw [rebuildIndex_of_none hl]
    exact .refl
  | some l => exact (rebuildIndex_frame hl).mono fun _ _ => trivial

/-- A call that appends nothing and does not set the head block leaves the facts
and the head block. -/
theorem reindexed_call (db : Database) {c : DatabaseCall}
    (hc : ∀ table f, c ≠ .append table f ∧ c ≠ .appendToStore table f)
    (hhead : ∀ block, c ≠ .setHeadBlock block) :
    db.directory.Reindexed (fun _ => True) (db.call c).directory := by
  have htable : ∀ {db' db'' : Database} {t : Table} {s : FactStore},
      db'.registerTable t = .ok (db'', s) → db''.directory = db'.directory := fun ht => by
    obtain ⟨catalog, -, ⟨-, rfl⟩ | ⟨-, rfl⟩⟩ := registerTable_eq_ok ht <;> rfl
  cases c with
  | append table f => exact absurd rfl (hc table f).1
  | appendToStore table f => exact absurd rfl (hc table f).2
  | setHeadBlock block => exact absurd rfl (hhead block)
  | registerTable t =>
    dsimp only [call]
    cases ht : db.registerTable t with
    | error e => exact .refl
    | ok result =>
      obtain ⟨db', s⟩ := result
      dsimp only
      rw [htable ht]
      exact .refl
  | registerIndex i => exact reindexed_registerIndex db i
  | load c =>
    refine loadConfiguration_induction
      (P := fun db' => db.directory.Reindexed (fun _ => True) db'.directory)
      (fun h ht => htable ht ▸ h) (fun i h => h.trans (reindexed_registerIndex _ i))
      (fun queries h => ?_) .refl c
    rw [install]
    split <;> exact h
  | rebuildIndex table index =>
    dsimp only [call]
    split
    · exact reindexed_rebuildIndex _ _ index
    · exact .refl

end Database

/-- Whether an event stores facts by appends that raise the head block, if it
stores any, and does not set the head block. -/
def ArchiveEvent.raisesHead : ArchiveEvent → Bool
  | .call (.setHeadBlock _) | .call (.appendToStore _ _) => false
  | _ => true

namespace Archive

variable {x : Archive}

/-- Such an event keeps the head block on the latest block, and does not lower it. -/
theorem headBlock_event (h : x.Traced)
    (hhead : x.database.headBlock = x.database.directory.latestBlock) {e : ArchiveEvent}
    (he : e.raisesHead = true) :
    (x.event e).database.headBlock = (x.event e).database.directory.latestBlock ∧
      x.database.headBlock ≤ (x.event e).database.headBlock := by
  have hreindexed : x.database.directory.Reindexed (fun _ => True) (x.event e).database.directory →
      (x.event e).database.headBlock = (x.event e).database.directory.latestBlock ∧
        x.database.headBlock ≤ (x.event e).database.headBlock := fun hsame => by
    have hsameHead : (x.event e).database.headBlock = x.database.headBlock := hsame.head_eq
    rw [hsameHead, Directory.latestBlock_congr hsame.factTree_eq]
    exact ⟨hhead, UInt64.le_refl _⟩
  cases e with
  | reopen => exact hreindexed .refl
  | call c =>
    cases c with
    | setHeadBlock block => cases he
    | appendToStore table f => cases he
    | append table f =>
      refine ⟨Database.headBlock_append_eq_latestBlock h.opened hhead table f, ?_⟩
      obtain ⟨herror, hok⟩ := Database.headBlock_append h.opened table f
      change x.database.headBlock ≤ (x.database.append table f).1.headBlock
      cases hresult : (x.database.append table f).2 with
      | error e => exact herror e hresult ▸ UInt64.le_refl _
      | ok outcome => exact hok outcome hresult ▸ Std.left_le_max
    | registerTable _ | registerIndex _ | load _ | rebuildIndex _ _ =>
      exact hreindexed (x.database.reindexed_call (by simp) (by simp))

/-- Such events keep the head block on the latest block, and do not lower it. -/
theorem headBlock_run (h : x.Traced)
    (hhead : x.database.headBlock = x.database.directory.latestBlock) {events : List ArchiveEvent}
    (hevents : ∀ e ∈ events, e.raisesHead = true) :
    (x.run events).database.headBlock = (x.run events).database.directory.latestBlock ∧
      x.database.headBlock ≤ (x.run events).database.headBlock := by
  induction events generalizing x with
  | nil => exact ⟨hhead, UInt64.le_refl _⟩
  | cons e events ih =>
    -- The next event starts where the head is the latest block again.
    obtain ⟨he, hevents⟩ := List.forall_mem_cons.mp hevents
    obtain ⟨hlatest, hle⟩ := headBlock_event h hhead he
    obtain ⟨hlast, hlater⟩ := ih (h.run [e]) hlatest hevents
    exact ⟨hlast, UInt64.le_trans hle hlater⟩

/-- Whether all facts of a table were filed with identities of the present
length. -/
def OneLength (x : Archive) (table : String) : Prop :=
  ∀ t ∈ x.database.catalog.tables.get? table, ∀ y ∈ x.facts,
    y.table.name = table → y.table.keys.length = t.keys.length

instance (x : Archive) (table : String) : Decidable (x.OneLength table) :=
  inferInstanceAs (Decidable (∀ _ ∈ _, _))

namespace Traced

variable {name : String} {s : FactStore}

/-- A store sees the versions of the filed facts, if their identities have the
present length. -/
theorem versionAt_eq (h : x.Traced) (hs : x.database.stores.get? name = some s)
    (hlength : x.OneLength name) {i : Tuple} (hi : s.table.IsIdentity i) (block : UInt64) :
    (History.ofFiled x.facts name).HeldIn (s.facts x.database.directory) ∧
      s.versionAt x.database.directory i block =
        .ok ((History.ofFiled x.facts name).versionAt i block) := by
  have hlen : ∀ f ∈ History.ofFiled x.facts name, f.identity.length = i.length := by
    intro f hf
    obtain ⟨y, hy, rfl⟩ := List.mem_map.mp hf
    obtain ⟨hy, hname⟩ := List.mem_filter.mp hy
    obtain ⟨hsound, hfits⟩ := h.fits y hy
    have hkeys := hlength s.table (h.opened.store_table hs) y hy (of_decide_eq_true hname)
    have hfact := congrArg List.length hfits.1
    have hidentity := congrArg List.length hi
    rw [List.length_map, Table.length_keyTypes hsound] at hfact
    rw [List.length_map, Table.length_keyTypes (h.opened.sound hs).table] at hidentity
    omega
  have hheld : (History.ofFiled x.facts name).HeldIn (s.facts x.database.directory) := by
    rw [FactStore.facts, h.opened.table_name hs]
    exact h.holds name i.length hlen
  exact ⟨hheld, hheld.versionAt_eq hi (fun f hf => (hlen f hf).symm) block⟩

/-- As of the latest block a store sees what it sees as of any later block. -/
theorem versionAt_eq_of_latest (h : x.Traced) (hs : x.database.stores.get? name = some s)
    (hlength : x.OneLength name) {block : UInt64}
    (hblock : x.database.directory.latestBlock ≤ block) (i : Tuple) :
    s.versionAt x.database.directory i block =
      s.versionAt x.database.directory i x.database.directory.latestBlock := by
  by_cases hi : s.table.IsIdentity i
  · obtain ⟨hheld, hlater⟩ := h.versionAt_eq hs hlength hi block
    obtain ⟨-, hlatest⟩ :=
      h.versionAt_eq hs hlength hi x.database.directory.latestBlock
    -- What was filed is stored, so no fact lies between the two blocks.
    have hgap : ∀ f ∈ History.ofFiled x.facts name,
        f.block ≤ x.database.directory.latestBlock ∨ block < f.block := fun f hf => by
      refine .inl (Directory.le_latestBlock (Directory.mem_blocks.mpr ⟨s.table.name, ?_⟩))
      exact ⟨f.entry, (hheld.mem_entries _).mpr ⟨f, hf, rfl⟩, f.present, Key.version?_ofVersion ..⟩
    rw [hlater, hlatest, History.versionAt_eq_of_gap hblock hgap]
  · obtain ⟨e, he⟩ := History.versionAt_of_not_identity (d := x.database.directory) hi
    rw [he, he]

/-- A row that a store shows is of no later block. -/
theorem block_le_of_resolveRow (h : x.Traced) (hs : x.database.stores.get? name = some s)
    (hlength : x.OneLength name) {i : Tuple} {block : UInt64} {row : Row}
    (hrow : s.resolveRow x.database.directory i block = .ok (some row)) : row.block ≤ block := by
  obtain ⟨v, hversion, hblock⟩ := versionAt_of_resolveRow hrow
  have hi := History.isIdentity_of_versionAt hversion
  rw [(h.versionAt_eq hs hlength hi block).2] at hversion
  obtain ⟨-, -, -, -, hle⟩ := History.exists_fact_of_versionAt (Except.ok.inj hversion)
  exact hblock ▸ hle

end Traced

end Archive

/-- The tables that a query reads. -/
def PreparedQuery.tables (q : PreparedQuery) : List String :=
  q.table :: (q.join.map Join.table).toList

/-- Whether two queries differ only in their names and in whether they are
limited to the head. -/
def QueryDefinition.SameButLimit (q p : QueryDefinition) : Prop :=
  q = { p with name := q.name, limitBlock := q.limitBlock }

instance (q p : QueryDefinition) : Decidable (q.SameButLimit p) :=
  inferInstanceAs (Decidable (_ = _))

/-- Queries over one index with one join read the same. -/
theorem PreparedQuery.same_of_compile {c : Catalog} {p q : PreparedQuery}
    (hp : compile c p.definition = .ok p) (hq : compile c q.definition = .ok q)
    (hindex : q.definition.index = p.definition.index)
    (hjoin : q.definition.join = p.definition.join) :
    q.table = p.table ∧ q.join = p.join ∧ q.columns = p.columns := by
  obtain ⟨i, first, hi, hfirst, hpjoin, -, hpeq⟩ := compile_eq_ok.mp hp
  obtain ⟨i', first', hi', hfirst', hqjoin, -, hqeq⟩ := compile_eq_ok.mp hq
  rw [hindex, hi] at hi'
  obtain rfl := Option.some.inj hi'
  rw [hfirst] at hfirst'
  obtain rfl := Option.some.inj hfirst'
  have hjoins : q.join = p.join := by
    rw [hjoin] at hqjoin
    generalize p.definition.join = definition, p.join = a, q.join = b at hpjoin hqjoin
    cases hpjoin with
    | none =>
      cases hqjoin
      rfl
    | some ha =>
      cases hqjoin with
      | some hb =>
        obtain ⟨second, hsecond, ha⟩ := compileJoin_eq_ok.mp ha
        obtain ⟨second', hsecond', hb⟩ := compileJoin_eq_ok.mp hb
        rw [hsecond] at hsecond'
        obtain rfl := Option.some.inj hsecond'
        rw [ha] at hb
        rw [Except.ok.inj hb]
  refine ⟨?_, hjoins, ?_⟩
  all_goals rw [hqeq, hpeq, hjoins]

namespace Archive

variable {x : Archive}

/-- The queries of every session are prepared. -/
theorem prepared_run (h : x.database.Prepared) (events : List ArchiveEvent) :
    (x.run events).database.Prepared := by
  induction events generalizing x with
  | nil => exact h
  | cons e events ih =>
    cases e with
    | reopen => exact ih (by simp [Database.Prepared, event, Database.ofDirectory])
    | call c => exact ih (h.run [c])

/-- A source of a query sees as of the latest block what it sees as of any later
one. -/
theorem Traced.seesAlike (h : x.Traced) {q : PreparedQuery} {source : RangeSource}
    (hsource : x.database.rangeSource q = .ok source)
    (hlength : ∀ table ∈ q.tables, x.OneLength table) {block : UInt64}
    (hblock : x.database.directory.latestBlock ≤ block) :
    source.SeesAlike x.database.directory x.database.directory.latestBlock
      x.database.directory block := by
  obtain ⟨hstore, -, hjoin, hseconds⟩ := Database.rangeSource_eq_ok hsource
  refine ⟨h.versionAt_eq_of_latest hstore (hlength _ List.mem_cons_self) hblock,
    fun join hj => h.versionAt_eq_of_latest (hseconds join hj)
      (hlength _ (List.mem_cons_of_mem _ ?_)) hblock⟩
  rw [← hjoin, hj]
  exact List.mem_singleton.mpr rfl

/-- Queries that read the same answer the same if the one is limited to the head
and the other is not. -/
theorem Traced.query_eq (h : x.Traced) (hprepared : x.database.Prepared)
    (hhead : x.database.headBlock = x.database.directory.latestBlock) {name other : String}
    {p q : PreparedQuery} (hp : x.database.queries.find name = .ok p)
    (hq : x.database.queries.find other = .ok q)
    (hsame : q.definition.SameButLimit p.definition)
    (hlength : ∀ table ∈ p.tables, x.OneLength table) {r : Request}
    (hblock : r.maxBlock = 18446744073709551615) :
    x.database.query { r with query := other } = x.database.query { r with query := name } := by
  have hindex : q.definition.index = p.definition.index := by rw [hsame]
  have hrows : q.definition.maxResults = p.definition.maxResults := by rw [hsame]
  obtain ⟨htable, hjoin, hcolumns⟩ := PreparedQuery.same_of_compile
    (hprepared _ p (Registry.find_eq_ok.mp hp)).2 (hprepared _ q (Registry.find_eq_ok.mp hq)).2
    hindex (by rw [hsame])
  have hsources : x.database.rangeSource q = x.database.rangeSource p := by
    rw [Database.rangeSource, Database.rangeSource, hindex, htable, hjoin]
  cases hsource : x.database.rangeSource p with
  | error e =>
    rw [Database.query, Database.query, hp, hq]
    dsimp only [bind, Except.bind]
    rw [hsources, hsource]
  | ok source =>
    have hlast : ∀ b : UInt64, b ≤ 18446744073709551615 := fun b =>
      UInt64.le_iff_toNat_le.mpr (Nat.le_of_lt_succ b.toNat_lt)
    have hlater : ∀ definition : QueryDefinition, ∀ r' : Request, r'.maxBlock = r.maxBlock →
        x.database.directory.latestBlock ≤ x.database.snapshot definition r' := by
      intro definition r' hr'
      rw [Database.snapshot, hr', hblock, ← hhead]
      split
      · rw [UInt64.le_iff_toNat_le, UInt64.toNat_min]
        exact le_min (UInt64.le_iff_toNat_le.mp (hlast _)) (Nat.le_refl _)
      · exact hlast _
    have hshown := fun definition r' hr' => (h.seesAlike hsource hlength
      (hlater definition r' hr')).page_shown_eq r.first r.last (Database.pageLimit p.definition r)
    have hpages := (hshown q.definition { r with query := other } rfl).trans
      (hshown p.definition { r with query := name } rfl).symm
    rw [Database.query_eq_shown (r := { r with query := name }) hp hsource,
      Database.query_eq_shown (r := { r with query := other }) hq (hsources.trans hsource),
      hcolumns, Database.pageLimit, hrows]
    exact congrArg (Except.map _) hpages

/-- A query that is limited to the head shows no later block. -/
theorem Traced.block_le_of_query (h : x.Traced) {r : Request} {q : PreparedQuery}
    (hq : x.database.queries.find r.query = .ok q) (hlimit : q.definition.limitBlock = true)
    (hlength : x.OneLength q.table) {response : Response}
    (hresponse : x.database.query r = .ok response) :
    ∀ row ∈ response.rows, row.block ≤ x.database.headBlock := by
  intro row hrow
  cases hsource : x.database.rangeSource q with
  | error e => simp [Database.query, hq, hsource, bind, Except.bind] at hresponse
  | ok source =>
    rw [Database.query_eq hq hsource] at hresponse
    cases hpage : source.page x.database.directory r.first r.last
        (x.database.snapshot q.definition r) (Database.pageLimit q.definition r) with
    | error e => simp [hpage, Except.map] at hresponse
    | ok page =>
      simp only [hpage, Except.map, Except.ok.injEq] at hresponse
      subst hresponse
      obtain ⟨i, hrowAt⟩ := RangeSource.rowAt_of_mem_page hpage hrow
      obtain ⟨-, plain, hplain, hjoined⟩ := RangeSource.resolve_of_rowAt_some hrowAt
      have hblock : row.block = plain.block := by
        generalize source.join = join at hjoined
        cases join with
        | none => rw [show row = plain from hjoined]
        | some join =>
          obtain ⟨joined, -, rfl⟩ := hjoined
          rfl
      have hle := h.block_le_of_resolveRow (Database.rangeSource_eq_ok hsource).1 hlength hplain
      rw [Database.snapshot, if_pos hlimit, UInt64.le_iff_toNat_le, UInt64.toNat_min] at hle
      rw [hblock, UInt64.le_iff_toNat_le]
      exact Nat.le_trans hle (Nat.min_le_right _ _)

/-- Over any sessions whose facts are all appended through the database, and
without setting it, the head block is the latest block of a stored version and
never falls. Two queries that differ only in their limit then answer alike up to
the last block, if the tables that they read had identities of one length. An
append that fails leaves the head block, and one that succeeds raises it to its
block, whatever happened before. A limited query never shows a row beyond the
head, if its table had identities of one length. -/
theorem headBlock_tracks_versions (events : List ArchiveEvent) :
    let x := new.run events
    let db := x.database
    ((∀ e ∈ events, e.raisesHead = true) →
      db.headBlock = db.directory.latestBlock ∧
      (∀ before, before <+: events → (new.run before).database.headBlock ≤ db.headBlock) ∧
      ∀ name other p q, db.queries.find name = .ok p → db.queries.find other = .ok q →
        q.definition.SameButLimit p.definition → (∀ table ∈ p.tables, x.OneLength table) →
          ∀ r : Request, r.maxBlock = 18446744073709551615 →
            db.query { r with query := other } = db.query { r with query := name }) ∧
    (∀ table f,
      (∀ e, (db.append table f).2 = .error e → (db.append table f).1.headBlock = db.headBlock) ∧
      ∀ outcome, (db.append table f).2 = .ok outcome →
        (db.append table f).1.headBlock = max db.headBlock f.block) ∧
    ∀ r q response, db.queries.find r.query = .ok q → q.definition.limitBlock = true →
      x.OneLength q.table → db.query r = .ok response →
        ∀ row ∈ response.rows, row.block ≤ db.headBlock := by
  intro x db
  have htraced : x.Traced := Traced.new.run events
  have hprepared : db.Prepared := prepared_run Database.prepared_empty events
  refine ⟨fun hevents => ?_, Database.headBlock_append htraced.opened,
    fun r q response hq hlimit hlength hresponse =>
      htraced.block_le_of_query hq hlimit hlength hresponse⟩
  obtain ⟨hhead, -⟩ := headBlock_run Traced.new rfl hevents
  refine ⟨hhead, ?_, fun name other p q hp hq hsame hlength r hr =>
    htraced.query_eq hprepared hhead hp hq hsame hlength hr⟩
  rintro before ⟨after, rfl⟩
  have hbefore : ∀ e ∈ before, e.raisesHead = true := fun e he =>
    hevents e (List.mem_append_left _ he)
  have hafter : ∀ e ∈ after, e.raisesHead = true := fun e he =>
    hevents e (List.mem_append_right _ he)
  have hrun : x = (new.run before).run after := List.foldl_append ..
  obtain ⟨hlatest, -⟩ := headBlock_run Traced.new rfl hbefore
  change (new.run before).database.headBlock ≤ x.database.headBlock
  rw [hrun]
  exact (headBlock_run (Traced.new.run before) hlatest hafter).2

/-- In two sessions an append fails, one states what is stored, and one is of an
earlier block than the head. -/
theorem sample_headBlock_tracks_versions :
    let query (name : String) (limit : Bool) : QueryDefinition := ⟨name, "by_k", limit, 10, none⟩
    let load : ArchiveEvent := .call (.load ⟨[⟨"kv", [⟨"k", .string⟩, ⟨"v", .int64⟩], ["k"]⟩],
      [⟨"by_k", "kv", [.asc "k"]⟩], [query "limited" true, query "open" false]⟩)
    let events : List ArchiveEvent := [load,
      .call (.append "kv" (.live [.string "a"] 3 [.int64 7])),
      .call (.append "kv" (.live [.string "a"] 2 [.int64 7])), .reopen, load,
      .call (.append "kv" (.live [.string "a"] 3 [.int64 7])),
      .call (.append "kv" (.live [.string "b"] 1 [.int64 5]))]
    let request (name : String) : Request :=
      ⟨name, 18446744073709551615, [.string ""], [.string "~"], 5⟩
    let db := (new.run events).database
    let lowered := (new.run (events ++ [.call (.setHeadBlock 2)])).database
    db.headBlock = db.directory.latestBlock ∧ db.headBlock = 3 ∧
      db.query (request "open") = db.query (request "limited") ∧
      (lowered.append "kv" (.tombstone [.string "c"] 1)).1.headBlock = max lowered.headBlock 1 ∧
      ∃ response, lowered.query (request "limited") = .ok response ∧
        response.rows = [⟨1, true, [.string "b", .int64 5]⟩] ∧
        ∀ row ∈ response.rows, row.block ≤ lowered.headBlock := by
  intro query load events request db lowered
  obtain ⟨htracks, -, -⟩ := headBlock_tracks_versions events
  obtain ⟨hhead, -, hqueries⟩ := htracks (by decide)
  obtain ⟨-, happends, hlimited⟩ :=
    headBlock_tracks_versions (events ++ [.call (.setHeadBlock 2)])
  have hlength : (new.run events).OneLength "kv" ∧
      (new.run (events ++ [.call (.setHeadBlock 2)])).OneLength "kv" := by
    decide +kernel
  have hinstalled :
      db.queries.get? "limited" = some ⟨query "limited" true, "kv", ["k", "v"], none⟩ ∧
        db.queries.get? "open" = some ⟨query "open" false, "kv", ["k", "v"], none⟩ ∧
          lowered.queries.get? "limited" =
            some ⟨query "limited" true, "kv", ["k", "v"], none⟩ := by
    decide +kernel
  obtain ⟨hfirst, hsecond, hthird⟩ := hinstalled
  have hsame := hqueries "limited" "open" _ _ (Registry.find_eq_ok.mpr hfirst)
    (Registry.find_eq_ok.mpr hsecond) rfl (by simpa [PreparedQuery.tables] using hlength.1)
    (request "limited") rfl
  have happended := (happends "kv" (.tombstone [.string "c"] 1)).2 .appended
    (eq_ok_of_toOption (by decide +kernel))
  have hresponse : lowered.query (request "limited") =
      .ok ⟨["k", "v"], [⟨1, true, [.string "b", .int64 5]⟩], none⟩ :=
    eq_ok_of_toOption (by decide +kernel)
  have hbounded := hlimited (request "limited") _ _ (Registry.find_eq_ok.mpr hthird) rfl
    hlength.2 hresponse
  exact ⟨hhead, by decide +kernel, hsame, happended, _, hresponse, rfl, hbounded⟩

/-- The key of a longer identity may be taken for that of a version of a shorter
one. A limited query and one without a limit then see versions of different
blocks, and a limited query may show a block beyond the head. -/
theorem not_headBlock_tracks_versions :
    let long : Table := ⟨"kv", [⟨"k", .string⟩, ⟨"n", .uint64⟩, ⟨"v", .int64⟩], ["k", "n"]⟩
    let short : Table := ⟨"kv", [⟨"k", .string⟩, ⟨"v", .int64⟩], ["k"]⟩
    let load : ArchiveEvent := .call (.load ⟨[short], [⟨"by_k", "kv", [.asc "k"]⟩],
      [⟨"limited", "by_k", true, 10, none⟩, ⟨"open", "by_k", false, 10, none⟩]⟩)
    let appendShort : ArchiveEvent := .call (.append "kv" (.live [.string "x"] 4 [.int64 9]))
    let appendLong (block : UInt64) : ArchiveEvent :=
      .call (.append "kv" (.live [.string "x", .uint64 5] block [.int64 7]))
    let request (name : String) : Request :=
      ⟨name, 18446744073709551615, [.string ""], [.string "~"], 5⟩
    let events : List ArchiveEvent := [.call (.registerTable long), appendLong 3, .reopen,
      .call (.registerTable short), appendShort, load]
    let db := (new.run events).database
    let lowered := (new.run [.call (.registerTable short), appendShort, .reopen,
      .call (.registerTable long), appendLong 18446744073709551615, .reopen, load,
      .call (.setHeadBlock 18446744073709551614)]).database
    ((∀ e ∈ events, e.raisesHead = true) ∧ db.headBlock = 4 ∧
      (∃ p q, db.queries.find "limited" = .ok p ∧ db.queries.find "open" = .ok q ∧
        q.definition.SameButLimit p.definition) ∧
      db.query (request "limited") = .ok ⟨["k", "v"], [⟨4, true, [.string "x", .int64 9]⟩], none⟩ ∧
      db.query (request "open") = .ok ⟨["k", "v"], [⟨3, true, [.string "x", .int64 7]⟩], none⟩ ∧
      db.query (request "open") ≠ db.query (request "limited")) ∧
    ∃ response, lowered.query (request "limited") = .ok response ∧
      ¬∀ row ∈ response.rows, row.block ≤ lowered.headBlock := by
  intro long short load appendShort appendLong request events db lowered
  have hfind : db.queries.get? "limited" =
        some ⟨⟨"limited", "by_k", true, 10, none⟩, "kv", ["k", "v"], none⟩ ∧
      db.queries.get? "open" =
        some ⟨⟨"open", "by_k", false, 10, none⟩, "kv", ["k", "v"], none⟩ := by
    decide +kernel
  have hlimited : db.query (request "limited") =
      .ok ⟨["k", "v"], [⟨4, true, [.string "x", .int64 9]⟩], none⟩ :=
    eq_ok_of_toOption (by decide +kernel)
  have hopen : db.query (request "open") =
      .ok ⟨["k", "v"], [⟨3, true, [.string "x", .int64 7]⟩], none⟩ :=
    eq_ok_of_toOption (by decide +kernel)
  have hbeyond : lowered.query (request "limited") =
      .ok ⟨["k", "v"], [⟨18446744073709551615, true, [.string "x", .int64 7]⟩], none⟩ :=
    eq_ok_of_toOption (by decide +kernel)
  refine ⟨⟨by decide, by decide +kernel, ⟨_, _, Registry.find_eq_ok.mpr hfind.1,
    Registry.find_eq_ok.mpr hfind.2, rfl⟩, hlimited, hopen, ?_⟩, _, hbeyond, by decide +kernel⟩
  rw [hlimited, hopen]
  simp

end Archive
end Chronicle
