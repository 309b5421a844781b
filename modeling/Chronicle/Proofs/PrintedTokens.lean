import Chronicle.Proofs.PlainForms
import Chronicle.Proofs.TypedResponses
import Mathlib.Data.List.Forall2

/-!
# Printed tokens

A continuation token is printed as the array of the plain forms of its values,
and a bound of a query is read from an array with the types of the fields that
its index sorts by. Both follow the sort keys in order, whatever fields they
repeat and whatever expressions they carry, so a bound of the index is read
back as it was. The exception is a bound with a float that has no plain form,
which is refused.
-/

namespace Chronicle

namespace Index

/-- Whether the field of a sort key has a type. -/
def ReadsType (t : Table) (k : SortKey) (type : ScalarType) : Prop :=
  ∃ f, t.field? k.field = some f ∧ f.type = type

/-- The sort keys of a compiled index have the types of its components, one for
one. -/
theorem forall₂_readsType {i : Index} {t : Table} {l : Layout} (h : i.compile t = .ok l) :
    List.Forall₂ (ReadsType t) i.sortKeys (l.keys.map (·.type)) := by
  obtain ⟨-, hkeys, -, -⟩ := compile_eq_ok h
  have hcompiled := map_of_mapM_ok hkeys
  rw [← List.forall₂_eq_eq_eq, List.forall₂_map_left_iff, List.forall₂_map_right_iff] at hcompiled
  rw [List.forall₂_map_right_iff]
  refine hcompiled.imp fun k component hcomponent => ?_
  obtain ⟨position, f, -, hf, rfl, -⟩ := compileKey_eq_ok hcomponent
  exact ⟨f, hf, rfl⟩

end Index

namespace Database

variable {t : Table} {keys : List SortKey} {types : List ScalarType}

/-- A value of a bound is read with the type of the field of its sort key. -/
theorem boundValues_cons {k : SortKey} {type : ScalarType} (hk : Index.ReadsType t k type)
    (keys : List SortKey) (j : Json) (elements : List Json) :
    boundValues t (k :: keys) (j :: elements) = do
      let first ← type.valueOfJson j
      let rest ← boundValues t keys elements
      return first :: rest := by
  obtain ⟨f, hf, rfl⟩ := hk
  rw [boundValues, boundValue, hf]

/-- Values that all have a plain form are read back. -/
theorem boundValues_toJson (hkeys : List.Forall₂ (Index.ReadsType t) keys types) {bound : Tuple}
    (htypes : bound.map Value.type = types) (hfinite : ∀ v ∈ bound, v.isFinite = true) :
    boundValues t keys (bound.map Value.toJson) = .ok bound := by
  induction hkeys generalizing bound with
  | nil =>
    obtain rfl := List.map_eq_nil_iff.mp htypes
    rfl
  | cons hk hkeys ih =>
    obtain ⟨v, rest, rfl, rfl, hrest⟩ := List.map_eq_cons_iff.mp htypes
    obtain ⟨hv, hfinite⟩ := List.forall_mem_cons.mp hfinite
    have hread := ScalarType.valueOfJson_eq_ok.mpr (ScalarType.ofJson?_toJson hv)
    rw [List.map_cons, boundValues_cons hk, hread, ih hrest hfinite]
    rfl

/-- Values of which one has no plain form are refused. -/
theorem boundValues_of_not_isFinite (hkeys : List.Forall₂ (Index.ReadsType t) keys types)
    {bound : Tuple} (htypes : bound.map Value.type = types)
    (hinfinite : ∃ v ∈ bound, v.isFinite = false) :
    ∃ cause, boundValues t keys (bound.map Value.toJson) = .error (.violation cause) := by
  induction hkeys generalizing bound with
  | nil =>
    obtain rfl := List.map_eq_nil_iff.mp htypes
    simp at hinfinite
  | cons hk hkeys ih =>
    obtain ⟨v, rest, rfl, rfl, hrest⟩ := List.map_eq_cons_iff.mp htypes
    rw [List.map_cons, boundValues_cons hk]
    cases hv : v.isFinite with
    | false =>
      obtain ⟨cause, hcause⟩ := ScalarType.valueOfJson_of_not_isFinite v.type hv
      rw [hcause]
      exact ⟨cause, rfl⟩
    | true =>
      -- Values are read from the left, so one that is read leaves the refusal to the rest.
      have hread := ScalarType.valueOfJson_eq_ok.mpr (ScalarType.ofJson?_toJson hv)
      have hlater : ∃ w ∈ rest, w.isFinite = false := by simpa [hv] using hinfinite
      obtain ⟨cause, hcause⟩ := ih hrest hlater
      rw [hread, hcause]
      exact ⟨cause, rfl⟩

/-- As many values as there are sort keys are read with the types of their
fields. -/
theorem types_of_boundValues (hkeys : List.Forall₂ (Index.ReadsType t) keys types)
    {elements : List Json} (hlength : elements.length = keys.length) {bound : Tuple}
    (h : boundValues t keys elements = .ok bound) : bound.map Value.type = types := by
  induction hkeys generalizing elements bound with
  | nil =>
    obtain rfl := List.length_eq_zero_iff.mp hlength
    cases h
    rfl
  | cons hk hkeys ih =>
    obtain ⟨j, rest, rfl⟩ := List.exists_cons_of_length_eq_add_one hlength
    rw [boundValues_cons hk] at h
    obtain ⟨v, hv, h⟩ := bind_eq_ok.mp h
    obtain ⟨values, hvalues, h⟩ := bind_eq_ok.mp h
    have htype := ScalarType.type_of_ofJson? (ScalarType.valueOfJson_eq_ok.mp hv)
    have htypes := ih (by simpa using hlength) hvalues
    cases h
    rw [List.map_cons, htype, htypes]

/-- A bound of an installed query is read with the definitions of its index and
its table. -/
theorem boundOfJson_array {db : Database} {name : String} {q : PreparedQuery} {i : Index}
    {t : Table} (hq : db.queries.find name = .ok q)
    (hi : db.catalog.index q.definition.index = .ok i) (ht : db.catalog.table i.table = .ok t)
    (elements : List Json) :
    db.boundOfJson name (.array elements) =
      if elements.length ≠ i.sortKeys.length then
        .error (Violation.boundLength name elements.length i.sortKeys.length)
      else boundValues t i.sortKeys elements := by
  rw [boundOfJson, hq]
  dsimp only [bind, Except.bind]
  rw [hi]
  dsimp only
  rw [ht]

/-- Whatever is read as a bound of an installed query has the types of its sort
keys. -/
theorem isBound_of_boundOfJson {db : Database} {name : String} {q : PreparedQuery} {i : Index}
    {t : Table} {l : Layout} (hq : db.queries.find name = .ok q)
    (hi : db.catalog.index q.definition.index = .ok i) (ht : db.catalog.table i.table = .ok t)
    (hl : i.compile t = .ok l) {j : Json} {bound : Tuple}
    (h : db.boundOfJson name j = .ok bound) : l.IsBound bound := by
  cases j with
  | array elements =>
    rw [boundOfJson_array hq hi ht] at h
    split at h
    · cases h
    · rename_i hlength
      exact types_of_boundValues (Index.forall₂_readsType hl) (by simpa using hlength) h
  | _ =>
    rw [boundOfJson, hq] at h
    dsimp only [bind, Except.bind] at h
    rw [hi] at h
    dsimp only at h
    rw [ht] at h
    cases h

/-- A printed token is a bound again. In any session on any directory, what fits
the index of an installed query is read back from its plain forms unchanged if
they all exist, and is refused otherwise. Whatever else is read fits the index. -/
theorem boundOfJson_toJson (d : Directory) (calls : List DatabaseCall) {name : String}
    {q : PreparedQuery} (hq : ((ofDirectory d).run calls).queries.find name = .ok q) :
    let db := (ofDirectory d).run calls
    ∃ i t l, db.catalog.index q.definition.index = .ok i ∧ db.catalog.table i.table = .ok t ∧
      i.compile t = .ok l ∧
      (∀ source, db.rangeSource q = .ok source → source.layout = l) ∧
      (∀ token, l.checkBound token = .ok () →
        ((∀ v ∈ token, v.isFinite = true) →
          db.boundOfJson name (Tuple.toJson token) = .ok token) ∧
        ((∃ v ∈ token, v.isFinite = false) →
          ∃ cause, db.boundOfJson name (Tuple.toJson token) = .error (.violation cause))) ∧
      ∀ j bound, db.boundOfJson name j = .ok bound → l.checkBound bound = .ok () := by
  intro db
  have h : db.Opened := (Opened.ofDirectory d).run calls
  have hprepared : db.Prepared := (prepared_ofDirectory d).run calls
  obtain ⟨-, hcompiled⟩ := hprepared _ q (Registry.find_eq_ok.mp hq)
  obtain ⟨i, t, hi, ht, -⟩ := PreparedQuery.columns_of_compile hcompiled
  obtain ⟨t', l, ht', hl⟩ := h.catalog.index_compiles hi
  obtain rfl : t' = t := Option.some.inj (ht'.symm.trans ht)
  have hindex := Catalog.index_eq_ok.mpr hi
  have htable := Catalog.table_eq_ok.mpr ht
  have hkeys := Index.forall₂_readsType hl
  have hread : ∀ token, l.IsBound token →
      db.boundOfJson name (Tuple.toJson token) =
        boundValues t' i.sortKeys (token.map Value.toJson) := fun token htoken => by
    have hlength : token.length = i.sortKeys.length := by
      rw [hkeys.length_eq, ← htoken, List.length_map]
    rw [Tuple.toJson, boundOfJson_array hq hindex htable, if_neg (by simpa using hlength)]
  refine ⟨i, t', l, hindex, htable, hl, fun source hsource => ?_, fun token htoken => ?_,
    fun j bound hbound => ?_⟩
  · obtain ⟨⟨⟨i', hi', ht', hl'⟩, -, -⟩, -⟩ := h.reads_of_rangeSource hcompiled hsource
    rw [hindex] at hi'
    cases hi'
    rw [htable] at ht'
    cases ht'
    rw [hl] at hl'
    cases hl'
    rfl
  · rw [Layout.checkBound_eq_ok] at htoken
    rw [hread token htoken]
    exact ⟨boundValues_toJson hkeys htoken, boundValues_of_not_isFinite hkeys htoken⟩
  · exact Layout.checkBound_eq_ok.mpr (isBound_of_boundOfJson hq hindex htable hl hbound)

/-- Probes are sorted by the bucket of their time, their level and their time
itself. The smallest time at negative zero is read back. A level that is no
number is refused. Whatever is read has the types of the four sort keys. -/
theorem sample_boundOfJson_toJson :
    let configuration : Configuration :=
      { tables := [⟨"probe", [⟨"level", .float64⟩, ⟨"time", .timestamp⟩, ⟨"sum", .bytes⟩],
          ["time", "level", "sum"]⟩]
        indexes := [⟨"probe_by_hour", "probe",
          [(SortKey.desc "time").withExpression (.bucket 3600), .asc "level", .asc "time",
            .asc "sum"]⟩]
        queries := [⟨"probes", "probe_by_hour", true, 10, none⟩] }
    let db := (ofDirectory .empty).run [.load configuration]
    let token (level : UInt64) : Tuple := [.timestamp Int64.minValue, .float64 ⟨level⟩,
      .timestamp Int64.minValue, .bytes []]
    db.boundOfJson "probes" (Tuple.toJson (token 0x8000000000000000)) =
        .ok (token 0x8000000000000000) ∧
      (∃ cause, db.boundOfJson "probes" (Tuple.toJson (token 0x7FF8000000000000)) =
        .error (.violation cause)) ∧
      ∀ j bound, db.boundOfJson "probes" j = .ok bound →
        bound.map Value.type = [.timestamp, .float64, .timestamp, .bytes] := by
  intro configuration db token
  let q : PreparedQuery := ⟨⟨"probes", "probe_by_hour", true, 10, none⟩, "probe",
    ["level", "time", "sum"], none⟩
  have hq : db.queries.find "probes" = .ok q := Registry.find_eq_ok.mpr (by decide +kernel)
  let layout : Layout := ⟨"probe_by_hour", "probe",
    [⟨"time", 0, .timestamp, some (.bucket 3600), .desc⟩, ⟨"level", 1, .float64, none, .asc⟩,
      ⟨"time", 0, .timestamp, none, .asc⟩, ⟨"sum", 2, .bytes, none, .asc⟩]⟩
  have hlayout : ((db.catalog.index "probe_by_hour").bind fun i =>
      (db.catalog.table i.table).bind i.compile).toOption = some layout := by
    decide +kernel
  obtain ⟨i, t, l, hi, ht, hl, -, htokens, hbounds⟩ := boundOfJson_toJson .empty _ hq
  rw [show db.catalog.index "probe_by_hour" = .ok i from hi, Except.bind,
    show db.catalog.table i.table = .ok t from ht, Except.bind, hl] at hlayout
  obtain rfl : l = layout := Option.some.inj hlayout
  have hfinite : ∀ v ∈ token 0x8000000000000000, v.isFinite = true := by decide +kernel
  have hinfinite : ∃ v ∈ token 0x7FF8000000000000, v.isFinite = false := by decide +kernel
  exact ⟨(htokens _ rfl).1 hfinite, (htokens _ rfl).2 hinfinite, fun j bound hbound =>
    Layout.checkBound_eq_ok.mp (hbounds j bound hbound)⟩

end Database
end Chronicle
