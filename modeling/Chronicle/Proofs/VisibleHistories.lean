import Chronicle.Proofs.KnownDefinitions
import Chronicle.Proofs.TypedResponses

/-!
# Visible histories

A response shows the facts up to its block and nothing else of what is stored.
Two databases that serve one configuration answer a request alike if they see
the same facts, however their trees came about: later versions, identities that
are placed but not seen, other definitions and the order of the calls leave no
trace. What is compared are two sources of one shape on two directories.
-/

namespace Chronicle

open FactStore

/-- Histories with the same facts up to a block see the same versions there. -/
theorem History.versionAt_eq_of_mem_iff {h h' : History} {block : UInt64}
    (hh : h.Pairwise fun newer older => newer.identity = older.identity →
      older.block < newer.block)
    (hh' : h'.Pairwise fun newer older => newer.identity = older.identity →
      older.block < newer.block)
    (hmem : ∀ f : Fact, f.block ≤ block → (f ∈ h' ↔ f ∈ h)) (i : Tuple) :
    h'.versionAt i block = h.versionAt i block := by
  have hfalling : ∀ {h : History}, (h.Pairwise fun newer older =>
      newer.identity = older.identity → older.block < newer.block) →
      ((h.versions i).filter (·.block ≤ block)).Pairwise fun newer older =>
        older.block < newer.block := fun hh => (pairwise_versions hh i).filter _
  have hnodup : ∀ {versions : List Version}, (versions.Pairwise fun newer older =>
      older.block < newer.block) → versions.Nodup := fun hv =>
    List.Pairwise.imp (fun {a b} (hlt : b.block < a.block) (he : a = b) =>
      UInt64.lt_irrefl _ (he ▸ hlt)) hv
  have hperm := (List.perm_ext_iff_of_nodup (hnodup (hfalling hh')) (hnodup (hfalling hh))).mpr
    fun v => by
      simp only [versions, List.mem_filter, List.mem_map, decide_eq_true_eq]
      constructor
      · rintro ⟨⟨f, ⟨hf, hi⟩, rfl⟩, hle⟩
        exact ⟨⟨f, ⟨(hmem f hle).mp hf, hi⟩, rfl⟩, hle⟩
      · rintro ⟨⟨f, ⟨hf, hi⟩, rfl⟩, hle⟩
        exact ⟨⟨f, ⟨(hmem f hle).mpr hf, hi⟩, rfl⟩, hle⟩
  have hsame := hperm.eq_of_pairwise
    (fun _ _ _ _ hab hba => absurd (UInt64.lt_trans hab hba) (UInt64.lt_irrefl _))
    (hfalling hh') (hfalling hh)
  rw [versionAt, versionAt, ← List.head?_filter, ← List.head?_filter, hsame]

/-- It is enough to compare the facts of the tables that are listed. -/
theorem Directory.mem_history_iff {d d' : Directory} {block : UInt64}
    (h : ∀ table ∈ d.facts.keys ++ d'.facts.keys,
      (∀ f ∈ d'.history table, f.block ≤ block → f ∈ d.history table) ∧
        ∀ f ∈ d.history table, f.block ≤ block → f ∈ d'.history table)
    (table : String) (f : Fact) (hf : f.block ≤ block) :
    f ∈ d'.history table ↔ f ∈ d.history table := by
  constructor
  · intro hmem
    exact (h table (List.mem_append_right _ (Directory.mem_keys_of_mem_history hmem))).1 f hmem hf
  · intro hmem
    exact (h table (List.mem_append_left _ (Directory.mem_keys_of_mem_history hmem))).2 f hmem hf

namespace RangeSource

variable {a b : RangeSource} {d d' : Directory} {m : UInt64} {first last : Tuple}

/-- Sources that read the same tables by the same index and join. Their stores
may have other indexes. -/
structure Alike (a b : RangeSource) : Prop where
  /-- The table is the same. -/
  table_eq : b.store.table = a.store.table
  /-- The index is the same. -/
  layout_eq : b.layout = a.layout
  /-- The join is the same, and so is the table that it reads. -/
  join_eq : b.join.map (fun j => (j.join, j.second.table)) =
    a.join.map fun j => (j.join, j.second.table)

/-- Sources alike show the same rows where the same versions are seen. -/
theorem Alike.seen_eq (h : a.Alike b) (hview : d.SameView m d' m) : b.seen d' m = a.seen d m := by
  rw [seen_congr hview]
  funext i
  have hjoin := h.join_eq
  rw [seen, seen, h.table_eq]
  cases ha : a.join with
  | none =>
    rw [ha, Option.map_none, Option.map_eq_none_iff] at hjoin
    rw [hjoin]
  | some j =>
    rw [ha, Option.map_some, Option.map_eq_some_iff] at hjoin
    obtain ⟨j', hb, hsame⟩ := hjoin
    rw [Prod.mk.injEq] at hsame
    simp only [hb, hsame]

/-- Sources alike show the same identities where the same versions are seen. -/
theorem Alike.visible_eq (h : a.Alike b) (ha : a.Ready d) (hb : b.Ready d')
    (hview : d.SameView m d' m) : b.visible d' first last m = a.visible d first last m := by
  have hascending := hb.pairwise_visible first last m
  rw [h.layout_eq] at hascending
  refine Layout.eq_of_ascending hascending (ha.pairwise_visible first last m) fun i => ?_
  rw [mem_visible, mem_visible, h.seen_eq hview, h.layout_eq]

/-- A page between tuples that are not both bounds tells nothing but the index. -/
theorem page_congr_of_not_bounds (hl : b.layout = a.layout)
    (hbounds : ¬(a.layout.IsBound first ∧ a.layout.IsBound last)) {limit : Nat} :
    b.page d' first last m limit = a.page d first last m limit := by
  rw [← Layout.checkBound_eq_ok, ← Layout.checkBound_eq_ok] at hbounds
  rw [page, page, hl]
  dsimp only [bind, Except.bind]
  cases hfirst : a.layout.checkBound first with
  | error e => dsimp only
  | ok _ =>
    cases hlast : a.layout.checkBound last with
    | error e => dsimp only
    | ok _ => exact absurd ⟨hfirst, hlast⟩ hbounds

/-- Sources alike have the same pages, but for the identities that they skip,
where the same versions are seen. -/
theorem Alike.page_eq (h : a.Alike b) (ha : a.Ready d) (hb : b.Ready d')
    (hview : d.SameView m d' m) (first last : Tuple) (limit : Nat) :
    (b.page d' first last m limit).map Page.shown =
      (a.page d first last m limit).map Page.shown := by
  by_cases hbounds : a.layout.IsBound first ∧ a.layout.IsBound last
  · obtain ⟨hfirst, hlast⟩ := hbounds
    obtain rfl | hlimit := Nat.eq_zero_or_pos limit
    · rw [page, page, h.layout_eq, Layout.checkBound_eq_ok.mpr hfirst,
        Layout.checkBound_eq_ok.mpr hlast, if_pos rfl, if_pos rfl]
    · obtain ⟨p, hp, hrows, hmore⟩ := ha.exists_page (m := m) hfirst hlast hlimit
      rw [← h.layout_eq] at hfirst hlast
      obtain ⟨p', hp', hrows', hmore'⟩ := hb.exists_page (m := m) hfirst hlast hlimit
      rw [h.visible_eq ha hb hview, h.seen_eq hview] at hrows'
      rw [h.visible_eq ha hb hview, h.layout_eq] at hmore'
      rw [hp, hp', Except.map, Except.map, Page.shown, Page.shown, hrows, hrows', hmore, hmore']
  · rw [page_congr_of_not_bounds h.layout_eq hbounds]

end RangeSource

/-- Whether a call loads a configuration. -/
def DatabaseCall.loads : DatabaseCall → Bool
  | .load _ => true
  | _ => false

namespace Database

variable {db db' base : Database} {c : Configuration} {q : PreparedQuery} {a b : RangeSource}

/-- The stored facts of an identity have falling blocks. -/
theorem InOrder.newestFirst (h : db.InOrder) (table : String) :
    (db.directory.history table).Pairwise fun newer older =>
      newer.identity = older.identity → older.block < newer.block := by
  cases hs : db.stores.get? table with
  | none =>
    rw [Directory.history, h.unknown hs]
    exact .nil
  | some s => exact (h.keeps hs).recorded.newestFirst

/-- Databases in order with the same facts up to a block look alike there. -/
theorem InOrder.sameView (h : db.InOrder) (h' : db'.InOrder) {block : UInt64}
    (hmem : ∀ table (f : Fact), f.block ≤ block →
      (f ∈ db'.directory.history table ↔ f ∈ db.directory.history table)) :
    db.directory.SameView block db'.directory block := fun table i =>
  (History.versionAt_eq_of_mem_iff (h.newestFirst table) (h'.newestFirst table) (hmem table) i).symm

/-- A query that was prepared from shared definitions reads sources alike. -/
theorem alike_of_rangeSource (h : db.InOrder) (h' : db'.InOrder) {shared : Catalog}
    (hsound : shared.Sound) (hshared : shared.Extends db.catalog)
    (hshared' : shared.Extends db'.catalog)
    (hq : PreparedQuery.compile shared q.definition = .ok q) (ha : db.rangeSource q = .ok a)
    (hb : db'.rangeSource q = .ok b) : a.Alike b := by
  obtain ⟨i, ⟨t, l, ht, hl⟩, hread⟩ : ∃ i, (∃ t l, shared.tables.get? i.table = some t ∧
      i.compile t = .ok l) ∧ shared.indexes.get? q.definition.index = some i := by
    obtain ⟨i, -, hi, -⟩ := PreparedQuery.compile_eq_ok.mp hq
    exact ⟨i, hsound.index_compiles hi, hi⟩
  have hsource : ∀ {db : Database} {source : RangeSource}, db.InOrder →
      shared.Extends db.catalog → db.rangeSource q = .ok source →
      source.store.table = t ∧ source.layout = l := by
    intro db source horder hextends hsource
    obtain ⟨⟨⟨i', hi', ht', hl'⟩, -, -⟩, -⟩ :=
      horder.opened.reads_of_rangeSource (PreparedQuery.compile_mono hextends hq) hsource
    rw [Catalog.index_eq_ok, hextends.index hread] at hi'
    obtain rfl := Option.some.inj hi'
    rw [Catalog.table_eq_ok, hextends.table ht] at ht'
    rw [← Option.some.inj ht', hl] at hl'
    exact ⟨(Option.some.inj ht').symm, (Except.ok.inj hl').symm⟩
  have hjoin : ∀ {db : Database} {source : RangeSource}, db.InOrder →
      shared.Extends db.catalog → db.rangeSource q = .ok source →
      source.join.map (fun j => (j.join, some j.second.table)) =
        q.join.map fun j => (j, shared.tables.get? j.table) := by
    intro db source horder hextends hsource
    obtain ⟨-, -, hsame, hseconds⟩ := rangeSource_eq_ok hsource
    rw [← hsame, Option.map_map]
    cases hj : source.join with
    | none => rfl
    | some j =>
      have hqj : q.join = some j.join := by rw [← hsame, hj, Option.map_some]
      obtain ⟨-, second, -, hsecond, -⟩ := (PreparedQuery.fits_of_compile hsound hq).join _ hqj
      have hknown := horder.store_table (hseconds j hj)
      rw [hextends.table hsecond] at hknown
      simp [hsecond, Option.some.inj hknown]
  obtain ⟨hta, hla⟩ := hsource h hshared ha
  obtain ⟨htb, hlb⟩ := hsource h' hshared' hb
  refine ⟨htb.trans hta.symm, hlb.trans hla.symm, ?_⟩
  have hsame := (hjoin h' hshared' hb).trans (hjoin h hshared ha).symm
  cases hja : a.join with
  | none =>
    rw [hja, Option.map_none, Option.map_eq_none_iff] at hsame
    rw [hsame]
  | some j =>
    rw [hja, Option.map_some, Option.map_eq_some_iff] at hsame
    obtain ⟨j', hjb, heq⟩ := hsame
    simp only [Prod.mk.injEq, Option.some.injEq] at heq
    simp [hjb, heq]

/-- A session on a new directory that loaded a configuration, whose queries are
still installed. Any calls may come before and after. -/
def Serves (db : Database) (c : Configuration) : Prop :=
  ∃ before loaded after, ((ofDirectory .empty).run before).loadConfiguration c = (loaded, .ok ()) ∧
    db = loaded.run after ∧ db.queries = loaded.queries

/-- Calls that load nothing leave the queries. -/
theorem queries_run (db : Database) {calls : List DatabaseCall}
    (hcalls : ∀ call ∈ calls, call.loads = false) : (db.run calls).queries = db.queries := by
  induction calls generalizing db with
  | nil => rfl
  | cons call calls ih =>
    obtain ⟨hcall, hcalls⟩ := List.forall_mem_cons.mp hcalls
    have hfirst : (db.call call).queries = db.queries := by
      cases call with
      | registerTable t =>
        rw [Database.call]
        cases ht : db.registerTable t with
        | error e => rfl
        | ok r => exact queries_registerTable ht
      | registerIndex i => exact queries_registerIndex db i
      | append table f =>
        obtain ⟨d, hd⟩ := append_eq_withDirectory db table f
        rw [Database.call, hd]
      | setHeadBlock block => rfl
      | appendToStore table f =>
        rw [Database.call]
        cases db.store table <;> rfl
      | rebuildIndex table index =>
        rw [Database.call]
        cases db.store table <;> rfl
      | load c => cases hcall
    exact (ih (db.call call) hcalls).trans hfirst

namespace Serves

/-- A session serves a configuration from a load that leaves what loading the
configuration leaves, until it loads something else. -/
theorem of_load {before after : List DatabaseCall} {loaded : Configuration}
    (hload : ((ofDirectory .empty).run before).loadConfiguration c =
      (((ofDirectory .empty).run before).call (.load loaded), .ok ()))
    (hafter : ∀ call ∈ after, call.loads = false) :
    ((ofDirectory .empty).run (before ++ .load loaded :: after)).Serves c := by
  refine ⟨before, _, after, hload, ?_, ?_⟩
  · rw [run, run, run, List.foldl_append, List.foldl_cons]
  · rw [run, List.foldl_append, List.foldl_cons]
    exact queries_run _ hafter

/-- A session serves what it loaded. -/
theorem of_run {before after : List DatabaseCall}
    (hload : (((ofDirectory .empty).run before).loadConfiguration c).2 = .ok ())
    (hafter : ∀ call ∈ after, call.loads = false) :
    ((ofDirectory .empty).run (before ++ .load c :: after)).Serves c :=
  of_load (Prod.ext rfl hload) hafter

/-- A session that registered the tables and indexes of a configuration itself
serves it if it loads the queries alone. -/
theorem of_registered {before after : List DatabaseCall}
    (hsep : ((ofDirectory .empty).run before).catalog.Separate)
    (htables : ∀ t ∈ c.tables,
      ((ofDirectory .empty).run before).catalog.tables.get? t.name = some t)
    (hindexes : ∀ i ∈ c.indexes, ((ofDirectory .empty).run before).catalog.Knows i)
    (hload : (((ofDirectory .empty).run before).loadConfiguration ⟨[], [], c.queries⟩).2 = .ok ())
    (hafter : ∀ call ∈ after, call.loads = false) :
    ((ofDirectory .empty).run (before ++ .load ⟨[], [], c.queries⟩ :: after)).Serves c := by
  have horder : ((ofDirectory .empty).run before).InOrder := inOrder_empty.run hsep
  refine of_load ?_ hafter
  rw [horder.loadConfiguration_eq_install htables hindexes,
    ← horder.loadConfiguration_eq_install (c := ⟨[], [], c.queries⟩) nofun nofun]
  exact Prod.ext rfl hload

theorem inOrder (h : db.Serves c) (hsep : db.catalog.Separate) : db.InOrder := by
  obtain ⟨before, loaded, after, hload, hdb, -⟩ := h
  have hrun : db = (ofDirectory .empty).run (before ++ .load c :: after) := by
    have hcall : ((ofDirectory .empty).run before).call (.load c) = loaded := by rw [call, hload]
    rw [hdb, ← hcall, run, run, run, List.foldl_append, List.foldl_cons]
  rw [hrun] at hsep ⊢
  exact inOrder_empty.run hsep

/-- A session that loaded a configuration has what the configuration makes
known by itself, and the queries that it installs by itself. -/
theorem extends_and_queries (h : db.Serves c)
    (hc : (ofDirectory .empty).loadConfiguration c = (base, .ok ())) :
    base.catalog.Extends db.catalog ∧ db.queries = base.queries := by
  obtain ⟨before, loaded, after, hload, hdb, hqueries⟩ := h
  have hextends := extends_of_loadConfiguration (d := .empty) hload
  rw [hc] at hextends
  obtain ⟨-, -, hbase⟩ := loadConfiguration_eq_ok hc
  obtain ⟨-, -, hloaded⟩ := loadConfiguration_eq_ok hload
  rw [Registry.prepare, Registry.prepareFrom_mono hextends hbase] at hloaded
  refine ⟨?_, hqueries.trans (Except.ok.inj hloaded).symm⟩
  rw [hdb]
  exact hextends.trans (extends_run loaded after)

end Serves

/-- A response depends on what is visible. Two sessions that serve one
configuration answer a request alike, with the same response or the same error,
if they answer it as of one block and have the same facts up to that block. It is
asked that the configuration loads by itself, so that it alone says what its
queries read. A session may have loaded the whole of it, or have registered the
same tables and indexes itself and loaded the queries. -/
theorem query_eq_of_visible (hc : ((ofDirectory .empty).loadConfiguration c).2 = .ok ())
    (h : db.Serves c) (h' : db'.Serves c) (hsep : db.catalog.Separate)
    (hsep' : db'.catalog.Separate) (r : Request)
    (hvisible : ∀ q, db.queries.find r.query = .ok q →
      let block (db : Database) := if q.definition.limitBlock then min r.maxBlock db.headBlock
        else 18446744073709551615
      block db' = block db ∧ ∀ table (f : Fact), f.block ≤ block db →
        (f ∈ db'.directory.history table ↔ f ∈ db.directory.history table)) :
    db'.query r = db.query r := by
  obtain ⟨base, hbase⟩ : ∃ base, (ofDirectory .empty).loadConfiguration c = (base, .ok ()) :=
    ⟨_, Prod.ext rfl hc⟩
  obtain ⟨hshared, hqueries⟩ := h.extends_and_queries hbase
  obtain ⟨hshared', hqueries'⟩ := h'.extends_and_queries hbase
  have horder := h.inOrder hsep
  have horder' := h'.inOrder hsep'
  cases hq : db.queries.find r.query with
  | error e =>
    rw [query, query, hqueries', ← hqueries, hq]
    rfl
  | ok q =>
    obtain ⟨hblock, hmem⟩ : db'.snapshot q.definition r = db.snapshot q.definition r ∧
        ∀ table (f : Fact), f.block ≤ db.snapshot q.definition r →
          (f ∈ db'.directory.history table ↔ f ∈ db.directory.history table) := hvisible q hq
    have hq' : db'.queries.find r.query = .ok q := by rw [hqueries', ← hqueries, hq]
    obtain ⟨a, ha, hready⟩ := horder.exists_source hq
    obtain ⟨b, hb, hready'⟩ := horder'.exists_source hq'
    have hrun : base = (ofDirectory .empty).run [.load c] := by
      rw [run, List.foldl_cons, call, hbase, List.foldl_nil]
    have hprepared : base.Prepared := hrun ▸ prepared_empty.run [.load c]
    have hopened : base.Opened := hrun ▸ (Opened.ofDirectory .empty).run [.load c]
    have hcompiled := (hprepared _ q (Registry.find_eq_ok.mp (hqueries ▸ hq))).2
    have halike :=
      alike_of_rangeSource horder horder' hopened.catalog hshared hshared' hcompiled ha hb
    have hpage := halike.page_eq hready hready' (horder.sameView horder' hmem) r.first r.last
      (pageLimit q.definition r)
    have hanswer : ∀ page : Except Error Page,
        page.map (fun page => Response.mk q.columns page.rows page.more) =
          (page.map Page.shown).map fun shown => ⟨q.columns, shown.1, shown.2⟩ := fun page => by
      cases page <;> rfl
    rw [query_eq hq ha, query_eq hq' hb, hblock, hanswer, hanswer, hpage]

/-- Items are shown with the level of their owner as of block 4. One session
loads the configuration, stores what is shown and nothing else. The other
registers the tables and indexes itself, with facts in between, and loads the
queries alone. It has a later level, a later item, an index of its own and a higher
head block. -/
theorem sample_query_eq_of_visible :
    let item : Table := ⟨"item", [⟨"id", .string⟩, ⟨"owner", .string⟩], ["id"]⟩
    let owner : Table := ⟨"owner", [⟨"name", .string⟩, ⟨"level", .uint32⟩], ["name"]⟩
    let byId : Index := ⟨"item_by_id", "item", [.asc "id"]⟩
    let queries : List QueryDefinition :=
      [⟨"items", "item_by_id", true, 10, some ⟨"owner", ["owner"], [⟨"level", none⟩]⟩⟩]
    let known : Fact := .live [.string "a"] 2 [.string "ann"]
    let ann : Fact := .live [.string "ann"] 3 [.uint32 7]
    let db := (ofDirectory .empty).run ([] ++ .load ⟨[item, owner], [byId], queries⟩ ::
      [.append "item" known, .append "owner" ann, .setHeadBlock 4])
    let before : List DatabaseCall := [.registerTable owner, .append "owner" ann,
      .append "owner" (.live [.string "ann"] 9 [.uint32 8]), .registerTable item,
      .registerIndex ⟨"owner_by_name", "owner", [.desc "name"]⟩,
      .append "item" (.live [.string "b"] 5 [.string "ann"]), .registerIndex byId]
    let after : List DatabaseCall := [.append "item" known, .rebuildIndex "item" "item_by_id"]
    let db' := (ofDirectory .empty).run (before ++ .load ⟨[], [], queries⟩ :: after)
    let r : Request := ⟨"items", 4, [.string ""], [.string "~"], 5⟩
    db'.query r = db.query r ∧
      (db.query r).toOption = some ⟨["id", "owner", "level"],
        [⟨2, true, [.string "a", .string "ann", .uint32 7]⟩], none⟩ := by
  intro item owner byId queries known ann db before after db' r
  let q : PreparedQuery := ⟨⟨"items", "item_by_id", true, 10,
      some ⟨"owner", ["owner"], [⟨"level", none⟩]⟩⟩, "item", ["id", "owner", "level"],
    some ⟨"owner", [1], true, [⟨1, "level", .uint32⟩]⟩⟩
  have hc : ((ofDirectory .empty).loadConfiguration ⟨[item, owner], [byId], queries⟩).2 =
      .ok () := eq_ok_of_toOption (by decide +kernel)
  have h : db.Serves ⟨[item, owner], [byId], queries⟩ := Serves.of_run hc (by decide)
  have hbefore : ((ofDirectory .empty).run before).catalog.Separate :=
    Catalog.separate_of_indexes (by decide +kernel)
  have htables : ∀ t ∈ [item, owner],
      ((ofDirectory .empty).run before).catalog.tables.get? t.name = some t := by
    decide +kernel
  have hindexes : ∀ i ∈ [byId], ((ofDirectory .empty).run before).catalog.Knows i := by
    decide +kernel
  have hload : (((ofDirectory .empty).run before).loadConfiguration ⟨[], [], queries⟩).2 =
      .ok () := eq_ok_of_toOption (by decide +kernel)
  have h' : db'.Serves ⟨[item, owner], [byId], queries⟩ :=
    Serves.of_registered (c := ⟨[item, owner], [byId], queries⟩) hbefore htables hindexes hload
      (by decide)
  have hsep : db.catalog.Separate := Catalog.separate_of_indexes (by decide +kernel)
  have hsep' : db'.catalog.Separate := Catalog.separate_of_indexes (by decide +kernel)
  have hq : db.queries.find "items" = .ok q := Registry.find_eq_ok.mpr (by decide +kernel)
  have hmem : ∀ table (f : Fact), f.block ≤ 4 →
      (f ∈ db'.directory.history table ↔ f ∈ db.directory.history table) :=
    Directory.mem_history_iff (by decide +kernel)
  refine ⟨query_eq_of_visible hc h h' hsep hsep' r fun q' hq' => ?_, by decide +kernel⟩
  rw [show r.query = "items" from rfl, hq] at hq'
  obtain rfl := Except.ok.inj hq'
  dsimp only
  rw [show (if q.definition.limitBlock then min r.maxBlock db.headBlock
    else 18446744073709551615) = 4 by decide +kernel]
  exact ⟨by decide +kernel, hmem⟩

end Database
end Chronicle
