import Chronicle.Proofs.Catalogs

/-!
# Catalogs that calls have built

A call adds a definition if it has no flaw of its own and no other definition
has its name. A call that is refused changes nothing, so after any calls each
definition is one that a call added, stored under its own name for good. What a
compiled index depends on never changes, and neither does its layout.
-/

namespace Chronicle

/-- A call on a catalog. -/
inductive CatalogCall where
  /-- Add a table. -/
  | table (table : Table)
  /-- Add an index. -/
  | index (index : Index)
  deriving DecidableEq, Repr

namespace Catalog

variable {c : Catalog}

/-- What a call leaves, and what it returns: a layout if it adds an index. -/
def call (c : Catalog) : CatalogCall → Catalog × Except Error (Option Layout)
  | .table t =>
    match c.addTable t with
    | .ok after => (after, .ok none)
    | .error e => (c, .error e)
  | .index i =>
    match c.addIndex i with
    | .ok (l, after) => (after, .ok (some l))
    | .error e => (c, .error e)

/-- What some calls leave. -/
def run (c : Catalog) (calls : List CatalogCall) : Catalog :=
  calls.foldl (fun c added => (c.call added).1) c

/-- Whether a definition has no flaw and its name no other definition. An index
also needs its table. -/
def Admits (c : Catalog) : CatalogCall → Prop
  | .table t => t.validate = .ok () ∧ ∀ known, c.tables.get? t.name = some known → known = t
  | .index i => (∃ t l, c.tables.get? i.table = some t ∧ i.compile t = .ok l) ∧
      ∀ known, c.indexes.get? i.name = some known → known = i

/-- Whether a definition is in the catalog, under its own name. -/
def Stores (c : Catalog) : CatalogCall → Prop
  | .table t => c.tables.get? t.name = some t
  | .index i => c.indexes.get? i.name = some i

/-- The catalog with a definition under its own name. -/
def storing (c : Catalog) : CatalogCall → Catalog
  | .table t => { c with tables := c.tables.insert t.name t }
  | .index i => { c with indexes := c.indexes.insert i.name i }

theorem stores_storing (c : Catalog) (added : CatalogCall) : (c.storing added).Stores added := by
  cases added <;> exact SortedMap.get?_insert_self ..

/-- To store a definition once more changes nothing. -/
theorem storing_of_stores {added : CatalogCall} (h : c.Stores added) : c.storing added = c := by
  cases added with
  | table t => rw [storing, SortedMap.insert_of_get? h]
  | index i => rw [storing, SortedMap.insert_of_get? h]

/-- A table is added exactly if it is admitted. -/
theorem addTable_cases (c : Catalog) (t : Table) :
    c.Admits (.table t) ∧ c.addTable t = .ok (c.storing (.table t)) ∨
      ¬c.Admits (.table t) ∧ ∃ e, c.addTable t = .error e := by
  cases h : c.addTable t with
  | ok after =>
    obtain ⟨hsound, ⟨hnew, rfl⟩ | ⟨hknown, rfl⟩⟩ := addTable_eq_ok h
    · exact .inl ⟨⟨Table.validate_eq_ok.mpr hsound, by simp [hnew]⟩, rfl⟩
    · have hstored : after.Stores (.table t) := hknown
      exact .inl ⟨⟨Table.validate_eq_ok.mpr hsound, by simp [hknown]⟩,
        by rw [storing_of_stores hstored]⟩
  | error e =>
    refine .inr ⟨fun ⟨hvalid, hname⟩ => ?_, e, rfl⟩
    rw [addTable, hvalid] at h
    cases hknown : c.tables.get? t.name with
    | none => simp [hknown, bind, Except.bind] at h
    | some known =>
      obtain rfl := hname known hknown
      simp [hknown, bind, Except.bind] at h

/-- An index is added exactly if it is admitted. -/
theorem addIndex_cases (c : Catalog) (i : Index) :
    c.Admits (.index i) ∧ (∃ l, c.addIndex i = .ok (l, c.storing (.index i))) ∨
      ¬c.Admits (.index i) ∧ ∃ e, c.addIndex i = .error e := by
  cases h : c.addIndex i with
  | ok result =>
    obtain ⟨l, after⟩ := result
    obtain ⟨⟨t, ht, hl⟩, ⟨hnew, rfl⟩ | ⟨hknown, rfl⟩⟩ := addIndex_eq_ok h
    · exact .inl ⟨⟨⟨t, l, ht, hl⟩, by simp [hnew]⟩, l, rfl⟩
    · have hstored : after.Stores (.index i) := hknown
      exact .inl ⟨⟨⟨t, l, ht, hl⟩, by simp [hknown]⟩, l, by rw [storing_of_stores hstored]⟩
  | error e =>
    refine .inr ⟨fun ⟨⟨t, l, ht, hl⟩, hname⟩ => ?_, e, rfl⟩
    rw [addIndex, table_eq_ok.mpr ht] at h
    cases hknown : c.indexes.get? i.name with
    | none => simp [hl, hknown, bind, Except.bind] at h
    | some known =>
      obtain rfl := hname known hknown
      simp [hl, hknown, bind, Except.bind] at h

/-- A call stores a definition that is admitted, and refuses any other without a
change. -/
theorem call_cases (c : Catalog) (added : CatalogCall) :
    c.Admits added ∧ (∃ answer, c.call added = (c.storing added, .ok answer)) ∨
      ¬c.Admits added ∧ ∃ e, c.call added = (c, .error e) := by
  cases added with
  | table t =>
    obtain ⟨hadmits, hadd⟩ | ⟨hnot, e, hadd⟩ := c.addTable_cases t
    · exact .inl ⟨hadmits, none, by rw [call, hadd]⟩
    · exact .inr ⟨hnot, e, by rw [call, hadd]⟩
  | index i =>
    obtain ⟨hadmits, l, hadd⟩ | ⟨hnot, e, hadd⟩ := c.addIndex_cases i
    · exact .inl ⟨hadmits, some l, by rw [call, hadd]⟩
    · exact .inr ⟨hnot, e, by rw [call, hadd]⟩

/-- A layout that a call returns is that of the index on its table. -/
theorem compile_of_call {i : Index} {l : Layout} (h : (c.call (.index i)).2 = .ok (some l)) :
    (c.call (.index i)).1.Stores (.index i) ∧
      ∃ t, c.tables.get? i.table = some t ∧ i.compile t = .ok l := by
  rw [call] at h ⊢
  cases hadd : c.addIndex i with
  | error e => simp [hadd] at h
  | ok result =>
    simp only [hadd, Except.ok.injEq, Option.some.injEq] at h
    subst h
    exact ⟨knows_of_addIndex hadd, (addIndex_eq_ok hadd).1⟩

/-- A name that a call has brought is that of the index that it added. -/
theorem call_of_index {name : String} {i : Index} {added : CatalogCall}
    (hnew : c.indexes.get? name = none) (h : (c.call added).1.indexes.get? name = some i) :
    added = .index i ∧ ∃ l, (c.call added).2 = .ok (some l) := by
  cases added with
  | table t =>
    rw [call] at h
    cases hadd : c.addTable t with
    | error e =>
      rw [hadd, hnew] at h
      cases h
    | ok after =>
      obtain ⟨-, ⟨-, rfl⟩ | ⟨-, rfl⟩⟩ := addTable_eq_ok hadd <;>
      · rw [hadd, hnew] at h
        cases h
  | index j =>
    rw [call] at h ⊢
    cases hadd : c.addIndex j with
    | error e =>
      rw [hadd, hnew] at h
      cases h
    | ok result =>
      obtain ⟨l, after⟩ := result
      obtain ⟨-, ⟨-, rfl⟩ | ⟨-, rfl⟩⟩ := addIndex_eq_ok hadd
      · simp only [hadd] at h
        obtain ⟨-, rfl⟩ | ⟨-, hold⟩ := SortedMap.get?_insert_eq_some.mp h
        · exact ⟨rfl, l, rfl⟩
        · rw [hnew] at hold
          cases hold
      · simp only [hadd, hnew] at h
        cases h

/-- What holds of a catalog and of what addition makes of it holds after a call. -/
theorem of_call {P : Catalog → Prop} (h : P c)
    (htable : ∀ {t after}, c.addTable t = .ok after → P after)
    (hindex : ∀ {i l after}, c.addIndex i = .ok (l, after) → P after) (added : CatalogCall) :
    P (c.call added).1 := by
  cases added with
  | table t =>
    rw [call]
    cases hadd : c.addTable t with
    | error e => exact h
    | ok after => exact htable hadd
  | index i =>
    rw [call]
    cases hadd : c.addIndex i with
    | error e => exact h
    | ok result => exact hindex hadd

/-- Calls keep the definitions. -/
theorem extends_catalogRun (c : Catalog) (calls : List CatalogCall) : c.Extends (c.run calls) := by
  induction calls generalizing c with
  | nil => exact .refl
  | cons added calls ih =>
    have hfirst : c.Extends (c.call added).1 :=
      of_call .refl extends_of_addTable extends_of_addIndex added
    exact hfirst.trans (ih _)

/-- Calls keep a catalog sound. -/
theorem Sound.run (hc : c.Sound) (calls : List CatalogCall) : (c.run calls).Sound := by
  induction calls generalizing c with
  | nil => exact hc
  | cons added calls ih => exact ih (of_call hc hc.addTable hc.addIndex added)

/-- An index that calls have brought was added by one of them. -/
theorem exists_call_of_index {name : String} {i : Index} {calls : List CatalogCall}
    (hnew : c.indexes.get? name = none) (h : (c.run calls).indexes.get? name = some i) :
    ∃ before after l, calls = before ++ .index i :: after ∧
      (c.run before).indexes.get? name = none ∧
      ((c.run before).call (.index i)).2 = .ok (some l) := by
  induction calls generalizing c with
  | nil =>
    rw [run, List.foldl_nil, hnew] at h
    cases h
  | cons added calls ih =>
    cases hfirst : (c.call added).1.indexes.get? name with
    | none =>
      obtain ⟨before, after, l, rfl, hbefore, hl⟩ := ih hfirst h
      exact ⟨added :: before, after, l, rfl, hbefore, hl⟩
    | some j =>
      -- The first call has brought the name, and nothing replaces what it stored.
      have hkept := (extends_catalogRun (c.call added).1 calls).index hfirst
      obtain rfl : j = i := Option.some.inj (hkept.symm.trans h)
      obtain ⟨rfl, l, hl⟩ := call_of_index hnew hfirst
      exact ⟨[], calls, l, rfl, hnew, hl⟩

theorem run_append (c : Catalog) (calls more : List CatalogCall) :
    c.run (calls ++ more) = (c.run calls).run more := List.foldl_append ..

/-- The layout that a call has returned stays that of the index. -/
theorem compile_of_run {i : Index} {l : Layout} (h : (c.call (.index i)).2 = .ok (some l))
    (calls : List CatalogCall) :
    let after := c.run (.index i :: calls)
    after.Stores (.index i) ∧ ∃ t, after.tables.get? i.table = some t ∧ i.compile t = .ok l := by
  obtain ⟨hstored, t, ht, hl⟩ := compile_of_call h
  have hkept := extends_catalogRun (c.call (.index i)).1 calls
  exact ⟨hkept.index hstored, t, (extends_catalogRun c (.index i :: calls)).table ht, hl⟩

/-- After any calls on an empty catalog each table is valid and stored under its
own name. Each index is stored under its own name and compiles on its table,
with the layout that was returned when the name was new and whenever the index
was added again. No later calls change or remove a definition. A further call is
accepted exactly if its definition is admitted, and stores it, which changes
nothing if it is stored already. A call that is refused changes nothing. -/
theorem run_keeps_definitions (calls : List CatalogCall) :
    let c := empty.run calls
    (∀ name t, c.tables.get? name = some t → t.name = name ∧ t.validate = .ok ()) ∧
    (∀ name i, c.indexes.get? name = some i → i.name = name ∧
      ∃ before after t l, calls = before ++ .index i :: after ∧
        (empty.run before).indexes.get? name = none ∧
        ((empty.run before).call (.index i)).2 = .ok (some l) ∧
        c.tables.get? i.table = some t ∧ i.compile t = .ok l) ∧
    (∀ before after i l, calls = before ++ .index i :: after →
      ((empty.run before).call (.index i)).2 = .ok (some l) →
      c.Stores (.index i) ∧ ∃ t, c.tables.get? i.table = some t ∧ i.compile t = .ok l) ∧
    (∀ more added, c.Stores added → (c.run more).Stores added) ∧
    ∀ added, match c.call added with
      | (after, .ok _) => c.Admits added ∧ after = c.storing added ∧ after.Stores added ∧
        (c.Stores added → after = c)
      | (after, .error _) => ¬c.Admits added ∧ after = c := by
  intro c
  have hsound : c.Sound := sound_empty.run calls
  refine ⟨fun name t ht => ?_, fun name i hi => ?_, fun before after i l hcalls hl => ?_,
    fun more added hadded => ?_, fun added => ?_⟩
  · exact ⟨hsound.table_name ht, Table.validate_eq_ok.mpr (hsound.table_sound ht)⟩
  · obtain ⟨before, after, l, hcalls, hbefore, hl⟩ := exists_call_of_index (by simp [empty]) hi
    obtain ⟨-, t, ht, hcompiled⟩ := compile_of_run hl after
    rw [← run_append, ← hcalls] at ht
    exact ⟨hsound.index_name hi, before, after, t, l, hcalls, hbefore, hl, ht, hcompiled⟩
  · have hkept := compile_of_run hl after
    rwa [← run_append, ← hcalls] at hkept
  · cases added with
    | table t => exact (extends_catalogRun c more).table hadded
    | index i => exact (extends_catalogRun c more).index hadded
  · obtain ⟨hadmits, answer, hcall⟩ | ⟨hnot, e, hcall⟩ := c.call_cases added
    · rw [hcall]
      exact ⟨hadmits, rfl, c.stores_storing added, storing_of_stores⟩
    · rw [hcall]
      exact ⟨hnot, rfl⟩

/-- The third call adds an index again, the fourth gives its name to another
order, and the fifth names a table that is not there. What was added stays
through one more call. -/
theorem sample_run_keeps_definitions :
    let door : Table := ⟨"door", [⟨"id", .string⟩, ⟨"open", .bool⟩], ["id"]⟩
    let gate : Table := ⟨"gate", [⟨"id", .bytes⟩], ["id"]⟩
    let byId : Index := ⟨"by_id", "door", [.asc "id"]⟩
    let refused : List CatalogCall := [.index ⟨"by_id", "door", [.desc "id"]⟩,
      .index ⟨"by_gate", "gate", [.asc "id"]⟩]
    let c := empty.run ([.table door, .index byId] ++ .index byId :: refused)
    c.tables.values = [door] ∧ c.indexes.values = [byId] ∧ door.validate = .ok () ∧
      byId.compile door = .ok ⟨"by_id", "door", [⟨"id", 0, .string, none, .asc⟩]⟩ ∧
      (c.run [.table gate]).Stores (.index byId) := by
  intro door gate byId refused c
  have hagain : ((empty.run [.table door, .index byId]).call (.index byId)).2 =
      .ok (some ⟨"by_id", "door", [⟨"id", 0, .string, none, .asc⟩]⟩) :=
    eq_ok_of_toOption (by decide +kernel)
  have hdoor : c.tables.get? "door" = some door := by decide +kernel
  obtain ⟨htables, -, hreturned, hkept, -⟩ :=
    run_keeps_definitions ([.table door, .index byId] ++ .index byId :: refused)
  obtain ⟨hstored, t, ht, hlayout⟩ := hreturned _ _ byId _ rfl hagain
  obtain rfl : t = door := Option.some.inj (ht.symm.trans hdoor)
  exact ⟨by decide +kernel, by decide +kernel, (htables "door" door hdoor).2, hlayout,
    hkept [.table gate] (.index byId) hstored⟩

end Catalog
end Chronicle
