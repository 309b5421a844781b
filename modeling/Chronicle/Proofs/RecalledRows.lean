import Chronicle.Proofs.Outlooks
import Chronicle.Proofs.RecalledFacts
import Chronicle.Proofs.TypedResponses

/-!
# Recalled rows

A page over facts that can be read under the present definitions shows rows that
the filed facts tell: that of an identity, with the values of the second
identity that its fields name. Nothing is asked of the index but that it holds
identities of the table. It may lack some of them, and it may have been built
in another order.
-/

namespace Chronicle

open FactStore

namespace Join

variable {j : Join} {first second : Table}

/-- Picking the values of selected fields takes them by name. -/
theorem picked_map {fields selected : List Field} {positions : List Nat}
    (h : positions.map (fields[·]?) = selected.map some) (g : Field → Value) :
    picked (fields.map g) positions = selected.map g := by
  calc picked (fields.map g) positions
      = (positions.map (fields[·]?)).filterMap (Option.map g) := by
        simp [picked, List.filterMap_map]
    _ = selected.map g := by
        rw [h, List.filterMap_map]
        simp

end Join

/-- The newest fact of the second identity that belongs to a filed fact. A
tombstone has no payload to derive an identity from. -/
def JoinDefinition.newest? (j : JoinDefinition) (first second : Table) (facts : List FiledFact)
    (block : UInt64) (y : FiledFact) : Option FiledFact :=
  if !y.fact.present && j.keyValues.any (fun name => !first.isKey name) then none
  else FiledFact.newest? facts second.name ((first.select j.keyValues).map y.value) block

/-- The values that a join adds to the row of a filed fact: those of the newest
fact of the second identity, or the defaults if there is none. -/
def JoinDefinition.recalled (j : JoinDefinition) (first second : Table) (facts : List FiledFact)
    (block : UInt64) (y : FiledFact) : Tuple :=
  (second.select (j.fields.map (·.name))).map fun f =>
    ((j.newest? first second facts block y).map (·.value f)).getD f.type.default

/-- The row of an identity with the values that are joined to it, as the filed
facts tell it. -/
def Table.recalled (t : Table) (joined : Option (JoinDefinition × Table)) (facts : List FiledFact)
    (block : UInt64) (i : Tuple) : Option Row :=
  (FiledFact.newest? facts t.name i block).map fun y =>
    { y.row t with
      values := t.fields.map y.value ++
        (joined.map fun j => j.1.recalled t j.2 facts block y).getD [] }

theorem Table.mem_of_mem_select {t : Table} {names : List String} {f : Field}
    (hf : f ∈ t.select names) : f ∈ t.fields := by
  obtain ⟨name, -, hname⟩ := List.mem_filterMap.mp hf
  exact List.mem_of_find?_eq_some hname

namespace JoinSource

variable {source : JoinSource} {first : Table} {d : Directory} {facts : List FiledFact}
  {joined : JoinDefinition × Table} {y : FiledFact}

/-- A join by name, with a store that recalls the facts of the second table. -/
structure Recalls (first : Table) (d : Directory) (facts : List FiledFact)
    (source : JoinSource) (joined : JoinDefinition × Table) : Prop where
  /-- The store is that of the second table. -/
  table_eq : source.second.table = joined.2
  /-- Its facts are read. -/
  second : source.second.Recalls d facts
  /-- The join reads the rows of both tables. -/
  reads : source.join.Reads first joined.2
  /-- It takes their fields by name. -/
  follows : source.join.Follows joined.1 first joined.2

/-- A join adds what the filed facts tell. -/
theorem Recalls.resolve_eq (h : source.Recalls first d facts joined) (hfirst : first.Sound)
    (hy : y.ReadableAs first) (block : UInt64) :
    source.join.resolve source.second d (y.row first) block =
      .ok (joined.1.recalled first joined.2 facts block y) := by
  obtain ⟨j, s⟩ := source
  obtain ⟨definition, second⟩ := joined
  obtain ⟨rfl, hs, hreads, hj⟩ := h
  have hdefaults : j.defaults =
      (s.table.select (definition.fields.map (·.name))).map (·.type.default) := by
    have hmapped := congrArg (List.map ScalarType.default) hj.types_eq
    rwa [List.map_map, List.map_map] at hmapped
  rw [Join.resolve, JoinDefinition.recalled, JoinDefinition.newest?, FiledFact.row, hj.reads_eq]
  dsimp only
  split
  · rw [hdefaults]
    rfl
  · obtain ⟨hpick, hidentity⟩ := Join.pick_eq (hy.types_eq hfirst) hreads.key_types
    rw [Join.picked_map hj.keys_eq] at hpick hidentity
    rw [Join.deriveKey, hpick]
    dsimp only [bind, Except.bind]
    rw [hs.resolveRow_eq hidentity]
    cases hnewest : FiledFact.newest? facts s.table.name
        ((first.select definition.keyValues).map y.value) block with
    | none =>
      rw [hdefaults]
      rfl
    | some z =>
      obtain ⟨hz, hname, -, -⟩ := FiledFact.of_newest? hnewest
      have hz := hs.readable z hz hname
      rw [Option.map_some, FiledFact.row]
      dsimp only
      rw [(Join.pick_eq (hz.types_eq hs.sound.table) hreads.field_types).1,
        Join.picked_map hj.fields_eq]
      rfl

/-- What a join adds has the types of its columns. -/
theorem Recalls.types_recalled (h : source.Recalls first d facts joined) (block : UInt64)
    (y : FiledFact) : (joined.1.recalled first joined.2 facts block y).map Value.type =
      source.join.columns.map Prod.snd := by
  obtain ⟨definition, second⟩ := joined
  obtain ⟨rfl, hs, -, hj⟩ := h
  have hcolumns : source.join.columns.map Prod.snd = source.join.fields.map (·.type) := by
    rw [Join.columns, List.map_map]
    rfl
  rw [hcolumns, hj.types_eq, JoinDefinition.recalled, List.map_map]
  refine List.map_congr_left fun f hf => ?_
  dsimp only [Function.comp_apply]
  cases hfound : definition.newest? first source.second.table facts block y with
  | none => exact type_default f.type
  | some z =>
    rw [JoinDefinition.newest?] at hfound
    split at hfound
    · cases hfound
    · obtain ⟨hz, hname, -, -⟩ := FiledFact.of_newest? hfound
      exact (hs.readable z hz hname).type_value hs.sound.table (Table.mem_of_mem_select hf)

end JoinSource

/-- The identities ahead of a page are those that the index holds. -/
theorem PageProgress.mem_of_mem_ahead {p : PageProgress} {tree : IndexTree} {i : Tuple}
    (hi : i ∈ p.ahead tree) : ∃ e ∈ tree.entries, e.2 = i := by
  rw [ahead, Scanner.ahead] at hi
  obtain ⟨key, hkey, rfl⟩ := List.mem_map.mp hi
  cases hstate : p.scanner.state with
  | exhausted => simp [hstate] at hkey
  | scanning =>
    simp only [hstate] at hkey
    obtain ⟨e, he, rfl⟩ := List.mem_map.mp hkey
    exact ⟨e, (SortedMap.mem_between.mp he).1, rfl⟩

namespace RangeSource

variable {source : RangeSource} {d : Directory} {facts : List FiledFact}
  {joined : Option (JoinDefinition × Table)} {block : UInt64} {limit : Nat} {i : Tuple}
  {first last : Tuple}

/-- Between two bounds a page seeks from its start, or it is finished. -/
theorem startPage_of_bounds {t : Table} (hl : source.layout.Reads t)
    (hfirst : source.layout.IsBound first) (hlast : source.layout.IsBound last) (limit : Nat) :
    ∃ p, source.startPage first last limit = .ok p ∧ p.rows = [] ∧
      (p.stage = .seeking ∨ ∃ more, p.stage = .finished more ∧
        ∀ token, more = some token → source.layout.IsBound token) := by
  rw [startPage, Layout.checkBound_eq_ok.mpr hfirst, Layout.checkBound_eq_ok.mpr hlast,
    hl.project_eq hfirst, hl.project_eq hlast]
  dsimp only [bind, Except.bind, pure, Except.pure]
  split
  · exact ⟨_, rfl, rfl, .inr ⟨_, rfl, fun token htoken => Option.some.inj htoken ▸ hfirst⟩⟩
  · split
    · exact ⟨_, rfl, rfl, .inr ⟨_, rfl, by simp⟩⟩
    · exact ⟨_, rfl, rfl, .inl rfl⟩

/-- A source on a directory that holds the facts that were filed. Its index holds
identities of the table, and its join reads the facts of another. -/
structure Recalls (source : RangeSource) (d : Directory) (facts : List FiledFact)
    (joined : Option (JoinDefinition × Table)) : Prop where
  /-- The facts of the table are read. -/
  store : source.store.Recalls d facts
  /-- The index is one of the table. -/
  layout : source.layout.Reads source.store.table
  /-- What the index holds are identities of the table. -/
  indexed : ∀ e ∈ (d.indexTree source.layout.treeName).entries, source.store.table.IsIdentity e.2
  /-- A join reads the facts of its table. -/
  join : Option.Rel (JoinSource.Recalls source.store.table d facts) source.join joined

namespace Recalls

/-- A source shows what the filed facts tell. -/
theorem rowAt_eq (h : source.Recalls d facts joined) (hi : source.store.table.IsIdentity i)
    (block : UInt64) :
    source.rowAt d block i = .ok (source.store.table.recalled joined facts block i) := by
  rw [rowAt, h.store.resolveRow_eq hi, Table.recalled]
  cases hnewest : FiledFact.newest? facts source.store.table.name i block with
  | none => rfl
  | some y =>
    obtain ⟨hy, hname, -, -⟩ := FiledFact.of_newest? hnewest
    have hy := h.store.readable y hy hname
    have hjoin := h.join
    generalize source.join = join at hjoin ⊢
    cases hjoin with
    | none => simp [FiledFact.row, bind, Except.bind, pure, Except.pure]
    | some hj =>
      dsimp only [Option.map, bind, Except.bind, pure, Except.pure]
      rw [hj.resolve_eq h.store.sound.table hy]
      rfl

/-- What a recalled row shows has the types of the columns and is of no later
block. -/
theorem types_recalled (h : source.Recalls d facts joined) {row : Row}
    (hrow : source.store.table.recalled joined facts block i = some row) :
    row.values.map Value.type = source.columns.map Prod.snd ∧ row.block ≤ block := by
  obtain ⟨y, hnewest, rfl⟩ := Option.map_eq_some_iff.mp hrow
  obtain ⟨hy, hname, -, hblock⟩ := FiledFact.of_newest? hnewest
  refine ⟨?_, hblock⟩
  have htypes := (h.store.readable y hy hname).types_eq h.store.sound.table
  have hjoin := h.join
  rw [columns]
  generalize source.join = join at hjoin ⊢
  cases hjoin with
  | none => simpa [Table.columns, Function.comp_def] using htypes
  | some hj =>
    have hplain : source.store.table.columns.map Prod.snd =
        source.store.table.fields.map (·.type) := by
      rw [Table.columns, List.map_map]
      rfl
    simp [htypes, hj.types_recalled block y, hplain]

/-- A part of a page: what it shows is recalled, it is not too long, and its
token is a bound. -/
structure Shows (source : RangeSource) (facts : List FiledFact)
    (joined : Option (JoinDefinition × Table)) (block : UInt64) (limit : Nat)
    (shown : List Row × Option Tuple) : Prop where
  /-- A row is that of an identity. -/
  recalled : ∀ row ∈ shown.1, ∃ i, source.store.table.recalled joined facts block i = some row
  /-- There are no more rows than are asked for. -/
  length_le : shown.1.length ≤ limit
  /-- A token is a bound. -/
  token_ok : ∀ token, shown.2 = some token → source.layout.IsBound token

/-- Showing identities of the table goes on to the end. -/
theorem showAll_ok (h : source.Recalls d facts joined) {ids : List Tuple}
    (hids : ∀ i ∈ ids, source.store.table.IsIdentity i) {rows : List Row}
    (hrows : Shows source facts joined block limit (rows, none)) :
    ∃ shown, source.showAll d block limit ids rows = .ok shown ∧
      Shows source facts joined block limit shown := by
  induction ids generalizing rows with
  | nil => exact ⟨_, rfl, hrows⟩
  | cons i ids ih =>
    obtain ⟨hi, hids⟩ := List.forall_mem_cons.mp hids
    rw [showAll]
    by_cases hroom : rows.length < limit
    · rw [if_pos hroom, h.rowAt_eq hi]
      refine ih hids ⟨fun row hrow => ?_, ?_, by simp⟩
      · obtain hrow | hrow := List.mem_append.mp hrow
        · exact hrows.recalled row hrow
        · exact ⟨i, Option.mem_toList.mp hrow⟩
      · cases source.store.table.recalled joined facts block i with
        | none => simpa using hrows.length_le
        | some row =>
          rw [List.length_append]
          exact hroom
    · rw [if_neg hroom, resolve, h.store.versionAt_eq hi]
      dsimp only [Except.map, Except.bind]
      split
      · exact ih hids hrows
      · rw [h.layout.boundOf_eq hi]
        refine ⟨_, rfl, hrows.recalled, hrows.length_le, fun token htoken => ?_⟩
        obtain rfl := Option.some.inj htoken
        exact h.layout.isBound_rawBound hi

/-- Between two bounds there is a page. -/
theorem exists_page (h : source.Recalls d facts joined) (hfirst : source.layout.IsBound first)
    (hlast : source.layout.IsBound last) (block : UInt64) (limit : Nat) :
    ∃ page, source.page d first last block limit = .ok page ∧
      Shows source facts joined block limit page.shown := by
  obtain ⟨p, hp, hrows, hstage⟩ := startPage_of_bounds h.layout hfirst hlast limit
  have houtlook : ∃ shown, p.outlook source block limit d = .ok shown ∧
      Shows source facts joined block limit shown := by
    have hstart : ∀ more, (∀ token, more = some token → source.layout.IsBound token) →
        Shows source facts joined block limit (p.rows, more) := fun more hmore =>
      ⟨by simp [hrows], by simp [hrows], hmore⟩
    rw [PageProgress.outlook]
    obtain hstage | ⟨more, hstage, hmore⟩ := hstage
    · rw [hstage]
      refine h.showAll_ok (fun i hi => ?_) (hstart none (by simp))
      obtain ⟨e, he, rfl⟩ := PageProgress.mem_of_mem_ahead hi
      exact h.indexed e he
    · rw [hstage]
      exact ⟨_, rfl, hstart more hmore⟩
  obtain ⟨shown, hok, hshows⟩ := houtlook
  have hpage := source.page_shown d first last block limit
  rw [hp, Except.bind, hok] at hpage
  cases hresult : source.page d first last block limit with
  | error e => simp [hresult, Except.map] at hpage
  | ok page =>
    simp only [hresult, Except.map, Except.ok.injEq] at hpage
    exact ⟨page, rfl, hpage ▸ hshows⟩

/-- Between two bounds a source answers with rows that the filed facts tell. -/
theorem exists_answer (h : source.Recalls d facts joined) (hfirst : source.layout.IsBound first)
    (hlast : source.layout.IsBound last) (block : UInt64) (limit : Nat) :
    ∃ page, source.page d first last block limit = .ok page ∧
      Response.Answers ⟨source.columns.map Prod.fst, page.rows, page.more⟩ source.columns block
        limit source.layout ∧
      ∀ row ∈ page.rows, ∃ i, source.store.table.recalled joined facts block i = some row := by
  obtain ⟨page, hpage, hshows⟩ := h.exists_page hfirst hlast block limit
  have hrecalled : ∀ row ∈ page.rows,
      ∃ i, source.store.table.recalled joined facts block i = some row := hshows.recalled
  refine ⟨page, hpage, ⟨rfl, fun row hrow => ?_, fun row hrow => ?_, hshows.length_le,
    fun token htoken => Layout.checkBound_eq_ok.mpr (hshows.token_ok token htoken)⟩, hrecalled⟩
  all_goals obtain ⟨i, hi⟩ := hrecalled row hrow
  · exact (h.types_recalled hi).1
  · exact (h.types_recalled hi).2

end Recalls

end RangeSource
end Chronicle
