import Chronicle.Ingest
import Chronicle.Proofs.PlainForms
import Chronicle.Proofs.Sessions
import Mathlib.Data.List.Forall2

/-!
# Facts read from objects

The members of a JSON object are the fields of a fact by name. The identity
takes them in its own order and the payload in that of the declaration, and the
row puts both in the order of the declaration again. All three go by the names,
so a row has at each field what the object says about it, and the object of a
row is read back.
-/

namespace Chronicle

namespace Table

variable {t : Table} {object : SortedMap String Json} {value : String → Value}
  {identity payload row : Tuple}

/-- Names that are paired with a value each are found with it. -/
theorem lookup_zip_map (value : String → Value) {names : List String} {name : String}
    (h : name ∈ names) : (names.zip (names.map value)).lookup name = some (value name) := by
  induction names with
  | nil => cases h
  | cons head names ih =>
    rw [List.map_cons, List.zip_cons_cons, List.lookup_cons]
    by_cases hname : name = head
    · rw [hname, beq_self_eq_true]
    · have hmem : name ∈ names := (List.mem_cons.mp h).resolve_left hname
      rw [beq_eq_false_iff_ne.mpr hname]
      exact ih hmem

/-- Values that different names find are those of the names. -/
theorem eq_map_of_lookup_zip {names : List String} {values : Tuple} (hnames : names.Nodup)
    (hlength : values.length = names.length)
    (h : ∀ name ∈ names, ∀ v, (names.zip values).lookup name = some v → v = value name) :
    values = names.map value := by
  induction names generalizing values with
  | nil => exact List.length_eq_zero_iff.mp hlength
  | cons head names ih =>
    obtain ⟨v, rest, rfl⟩ := List.exists_cons_of_length_eq_add_one hlength
    obtain ⟨hhead, hnames⟩ := List.nodup_cons.mp hnames
    have hv : v = value head := h head (List.mem_cons_self ..) v List.lookup_cons_self
    have hrest : rest = names.map value := by
      refine ih hnames (by simpa using hlength) fun name hname w hw => ?_
      have hne : name ≠ head := fun he => hhead (he ▸ hname)
      refine h name (List.mem_cons_of_mem _ hname) w ?_
      rw [List.zip_cons_cons, List.lookup_cons, beq_eq_false_iff_ne.mpr hne]
      exact hw
    rw [List.map_cons, ← hv, ← hrest]

/-- An identity and a payload that are made of one value for each name have the
row of these values. -/
theorem rowValues_map (value : String → Value) :
    t.rowValues (t.keys.map value) (t.payloadFields.map fun f => value f.name) =
      t.fields.map fun f => value f.name := by
  refine List.map_congr_left fun f hf => ?_
  have hpayload : (t.payloadFields.map fun f => value f.name) =
      (t.payloadFields.map (·.name)).map value := by
    rw [List.map_map]
    rfl
  rw [record, List.lookup_append, hpayload]
  by_cases hkey : f.name ∈ t.keys
  · rw [lookup_zip_map value hkey]
    rfl
  · have hmem := List.mem_map_of_mem (f := fun f : Field => f.name) (mem_payloadFields hf hkey)
    rw [lookup_zip_eq_none hkey, lookup_zip_map value hmem]
    rfl

/-- Values of the types of the fields are an identity. -/
theorem isIdentity_map (ht : t.Sound) (h : ∀ f ∈ t.fields, (value f.name).type = f.type) :
    t.IsIdentity (t.keys.map value) := by
  have htypes : (t.keys.map fun key => (value key).type).map some = t.keyTypes.map some := by
    rw [keyTypes_eq_map ht, List.map_map]
    refine List.map_congr_left fun key hkey => ?_
    obtain ⟨f, hf, rfl, hfield⟩ := exists_field ht hkey
    rw [hfield, Function.comp_apply, h f hf]
    rfl
  rw [IsIdentity, List.map_map]
  exact List.map_injective_iff.mpr (Option.some_injective _) htypes

/-- Values of the types of the fields are a payload. -/
theorem isPayload_map (h : ∀ f ∈ t.fields, (value f.name).type = f.type) :
    t.IsPayload (t.payloadFields.map fun f => value f.name) := by
  rw [IsPayload, payloadTypes, List.map_map]
  exact List.map_congr_left fun f hf => h f (List.mem_filter.mp hf).1

/-- An identity and a payload can be read off their row. -/
theorem eq_map_of_rowValues_eq (ht : t.Sound) (hid : t.IsIdentity identity)
    (hpayload : t.IsPayload payload)
    (h : t.rowValues identity payload = t.fields.map fun f => value f.name) :
    identity = t.keys.map value ∧ payload = t.payloadFields.map fun f => value f.name := by
  have hvalue : ∀ f ∈ t.fields,
      ((t.record identity payload).lookup f.name).getD f.type.default = value f.name :=
    List.map_inj_left.mp h
  have hidlength := congrArg List.length hid
  have hpaylength := congrArg List.length hpayload
  rw [List.length_map, length_keyTypes ht] at hidlength
  rw [List.length_map, payloadTypes, List.length_map] at hpaylength
  constructor
  · refine eq_map_of_lookup_zip ht.keys_nodup hidlength fun key hkey v hv => ?_
    obtain ⟨f, hf, rfl, -⟩ := exists_field ht hkey
    rw [← hvalue f hf, record, List.lookup_append, hv]
    rfl
  · have hnames : payload = (t.payloadFields.map (·.name)).map value := by
      refine eq_map_of_lookup_zip (nodup_payloadNames ht) (by simpa using hpaylength)
        fun name hname v hv => ?_
      obtain ⟨f, hf, rfl⟩ := List.mem_map.mp hname
      rw [← hvalue f (List.mem_filter.mp hf).1, record, List.lookup_append,
        lookup_zip_eq_none (name_notMem_keys hf), hv]
      rfl
    rw [hnames, List.map_map]
    rfl

/-- Whether a field takes a value from an object: the converted member of its
name, or its default if there is none. -/
def Takes (object : SortedMap String Json) (f : Field) (v : Value) : Prop :=
  match object.get? f.name with
  | some j => f.type.valueOfJson j = .ok v
  | none => v = f.type.default

/-- An object of which a fact of the table can be read. -/
structure Accepts (t : Table) (object : SortedMap String Json) : Prop where
  /-- Each field of the identity is a member. -/
  key_mem : ∀ key ∈ t.keys, ∃ j, object.get? key = some j
  /-- Each member is named for a field. -/
  name_mem : ∀ name ∈ object.keys, name ∈ t.fieldNames
  /-- Each member is a value of its field. -/
  converts : ∀ f ∈ t.fields, ∀ j, object.get? f.name = some j → ∃ v, f.type.valueOfJson j = .ok v

theorem payloadValue_eq_ok {f : Field} {v : Value} :
    payloadValue object f = .ok v ↔ Takes object f v := by
  rw [payloadValue, Takes]
  cases object.get? f.name with
  | some j => rfl
  | none => simp [eq_comm]

/-- A field of the identity takes the member of its name. -/
theorem keyValue_eq {f : Field} (hf : t.field? f.name = some f) {j : Json}
    (hj : object.get? f.name = some j) :
    t.keyValue object f.name = payloadValue object f := by
  rw [keyValue, payloadValue, hf, hj]

/-- A value that a field takes has the type of the field. -/
theorem type_of_takes {f : Field} {v : Value} (h : Takes object f v) : v.type = f.type := by
  rw [Takes] at h
  split at h
  · exact ScalarType.type_of_ofJson? (ScalarType.valueOfJson_eq_ok.mp h)
  · rw [h, type_default]

/-- Each field takes a value from an object that is accepted. -/
theorem Accepts.exists_takes (h : t.Accepts object) {f : Field} (hf : f ∈ t.fields) :
    ∃ v, Takes object f v := by
  rw [funext fun v => Takes.eq_def object f v]
  cases hj : object.get? f.name with
  | some j => exact h.converts f hf j hj
  | none => exact ⟨_, rfl⟩

/-- What is read of an object that is accepted. -/
theorem Accepts.valuesOfObject_eq (ht : t.Sound) (h : t.Accepts object)
    (hvalue : ∀ f ∈ t.fields, Takes object f (value f.name)) :
    t.valuesOfObject object =
      .ok (t.keys.map value, t.payloadFields.map fun f => value f.name) := by
  have hidentity : t.keys.mapM (t.keyValue object) = .ok (t.keys.map value) :=
    mapM_ok fun key hkey => by
      obtain ⟨f, hf, rfl, hfield⟩ := exists_field ht hkey
      obtain ⟨j, hj⟩ := h.key_mem f.name hkey
      rw [keyValue_eq hfield hj, payloadValue_eq_ok]
      exact hvalue f hf
  have hpayload : t.payloadFields.mapM (payloadValue object) =
      .ok (t.payloadFields.map fun f => value f.name) :=
    mapM_ok fun f hf => payloadValue_eq_ok.mpr (hvalue f (List.mem_filter.mp hf).1)
  have hknown : (object.keys.find? fun name => (t.field? name).isNone) = none := by
    rw [List.find?_eq_none]
    intro name hname
    obtain ⟨f, hf, rfl⟩ := List.mem_map.mp (h.name_mem name hname)
    rw [(field?_eq_some ht).mpr hf, Option.isNone_some]
    exact Bool.false_ne_true
  rw [valuesOfObject, hidentity]
  dsimp only [bind, Except.bind]
  rw [hpayload]
  dsimp only
  rw [hknown]

/-- An object of which something is read is accepted. -/
theorem accepts_of_valuesOfObject (ht : t.Sound)
    (h : t.valuesOfObject object = .ok (identity, payload)) : t.Accepts object := by
  obtain ⟨_, hidentity, h⟩ := bind_eq_ok.mp h
  obtain ⟨_, hpayload, h⟩ := bind_eq_ok.mp h
  have hkeys := forall_ok_of_mapM_ok hidentity
  have hothers := forall_ok_of_mapM_ok hpayload
  have hmember : ∀ key ∈ t.keys, ∃ j, object.get? key = some j := fun key hkey => by
    obtain ⟨v, hv⟩ := hkeys key hkey
    rw [keyValue] at hv
    cases hj : object.get? key with
    | some j => exact ⟨j, rfl⟩
    | none =>
      rw [hj] at hv
      split at hv <;> cases hv
  refine ⟨hmember, fun name hname => ?_, fun f hf j hj => ?_⟩
  · split at h
    · cases h
    · rename_i hknown
      have hfield := List.find?_eq_none.mp hknown name hname
      obtain ⟨f, hf⟩ := Option.ne_none_iff_exists'.mp (by simpa using hfield)
      have hfname : f.name = name := by simpa using List.find?_some hf
      exact hfname ▸ List.mem_map_of_mem (List.mem_of_find?_eq_some hf)
  · -- The identity and the payload have read each field between them.
    have htakes : ∃ v, Takes object f v := by
      by_cases hkey : f.name ∈ t.keys
      · obtain ⟨v, hv⟩ := hkeys f.name hkey
        rw [keyValue_eq ((field?_eq_some ht).mpr hf) hj] at hv
        exact ⟨v, payloadValue_eq_ok.mp hv⟩
      · obtain ⟨v, hv⟩ := hothers f (mem_payloadFields hf hkey)
        exact ⟨v, payloadValue_eq_ok.mp hv⟩
    obtain ⟨v, hv⟩ := htakes
    rw [Takes, hj] at hv
    exact ⟨v, hv⟩

/-- The value that the field of a name takes from an object. -/
def taken (t : Table) (object : SortedMap String Json) (name : String) : Value :=
  match (t.field? name).map (payloadValue object) with
  | some (.ok v) => v
  | _ => default

theorem Accepts.takes_taken (ht : t.Sound) (h : t.Accepts object) {f : Field} (hf : f ∈ t.fields) :
    Takes object f (t.taken object f.name) := by
  obtain ⟨v, hv⟩ := h.exists_takes hf
  have htaken : t.taken object f.name = v := by
    rw [taken, (field?_eq_some ht).mpr hf, Option.map_some, payloadValue_eq_ok.mpr hv]
  rwa [htaken]

/-- What is read of an object fits the table, and each field of the row takes its
value from the object. -/
theorem reads_of_valuesOfObject (ht : t.Sound)
    (h : t.valuesOfObject object = .ok (identity, payload)) :
    t.IsIdentity identity ∧ t.IsPayload payload ∧
      ∃ row, t.assemble identity payload = .ok row ∧ List.Forall₂ (Takes object) t.fields row := by
  have haccepts := accepts_of_valuesOfObject ht h
  have htakes : ∀ f ∈ t.fields, Takes object f (t.taken object f.name) := fun f hf =>
    haccepts.takes_taken ht hf
  have htypes : ∀ f ∈ t.fields, (t.taken object f.name).type = f.type := fun f hf =>
    type_of_takes (htakes f hf)
  rw [haccepts.valuesOfObject_eq ht htakes] at h
  cases h
  have hid := isIdentity_map ht htypes
  refine ⟨hid, isPayload_map htypes, t.fields.map fun f => t.taken object f.name, ?_, ?_⟩
  · rw [assemble_eq ht hid, rowValues_map]
  · exact List.forall₂_map_right_iff.mpr (List.forall₂_same.mpr htakes)

/-- The object of a row, with a member for each field. -/
def objectOfRow (t : Table) (row : Tuple) : SortedMap String Json :=
  SortedMap.ofList (t.fieldNames.zip (row.map Value.toJson))

/-- A row with a value for each field has one for each name. -/
theorem exists_values_of_row (ht : t.Sound) (hrow : row.length = t.fields.length) :
    ∃ value : String → Value, row = t.fieldNames.map value := by
  refine ⟨fun name => ((t.fieldNames.zip row).lookup name).getD default,
    eq_map_of_lookup_zip ht.fields_nodup (by rw [hrow, fieldNames, List.length_map])
      fun name _ v hv => ?_⟩
  rw [hv, Option.getD_some]

theorem get?_objectOfRow (ht : t.Sound) {f : Field} (hf : f ∈ t.fields) :
    (t.objectOfRow (t.fieldNames.map value)).get? f.name = some (value f.name).toJson := by
  have hname : f.name ∈ t.fieldNames := List.mem_map_of_mem hf
  have hzip : t.fieldNames.zip ((t.fieldNames.map value).map Value.toJson) =
      t.fieldNames.map fun name => (name, (value name).toJson) := by
    rw [List.map_map, List.map_prod_left_eq_zip]
    rfl
  have hnodup : ((t.fieldNames.map fun name => (name, (value name).toJson)).map
      Prod.fst).Nodup := by
    rw [List.map_map, Function.comp_def, List.map_id']
    exact ht.fields_nodup
  rw [objectOfRow, hzip]
  exact SortedMap.get?_ofList_of_mem hnodup (List.mem_map_of_mem hname)

/-- The object of a row has no other members. -/
theorem mem_fieldNames_of_mem_objectOfRow {name : String}
    (h : name ∈ (t.objectOfRow row).keys) : name ∈ t.fieldNames := by
  by_contra hname
  obtain ⟨⟨n, j⟩, he, rfl⟩ := List.mem_map.mp h
  have hnone : (t.objectOfRow row).get? n = none :=
    SortedMap.get?_ofList_eq_none fun e he hk => hname (hk ▸ (List.of_mem_zip he).1)
  rw [SortedMap.get?_eq_some_iff.mpr he] at hnone
  cases hnone

/-- The object of a row with plain forms is read to the only identity and payload
that have the row. -/
theorem valuesOfObject_objectOfRow (ht : t.Sound)
    (htypes : row.map Value.type = t.fields.map (·.type)) (hfinite : ∀ v ∈ row, v.isFinite = true) :
    ∃ identity payload, t.valuesOfObject (t.objectOfRow row) = .ok (identity, payload) ∧
      ∀ i p, t.IsIdentity i ∧ t.IsPayload p ∧ t.assemble i p = .ok row ↔
        i = identity ∧ p = payload := by
  have hlength : row.length = t.fields.length := by
    simpa using congrArg List.length htypes
  obtain ⟨value, rfl⟩ := exists_values_of_row ht hlength
  have hrow : t.fieldNames.map value = t.fields.map fun f => value f.name := List.map_map
  have htype : ∀ f ∈ t.fields, (value f.name).type = f.type := by
    rw [hrow, List.map_map] at htypes
    exact List.map_inj_left.mp htypes
  have htakes : ∀ f ∈ t.fields,
      Takes (t.objectOfRow (t.fieldNames.map value)) f (value f.name) := by
    intro f hf
    have hv := hfinite (value f.name) (List.mem_map_of_mem (List.mem_map_of_mem hf))
    rw [Takes, get?_objectOfRow ht hf]
    dsimp only
    rw [ScalarType.valueOfJson_eq_ok, ← htype f hf]
    exact ScalarType.ofJson?_toJson hv
  have haccepts : t.Accepts (t.objectOfRow (t.fieldNames.map value)) := by
    refine ⟨fun key hkey => ?_, fun name hname => mem_fieldNames_of_mem_objectOfRow hname,
      fun f hf j hj => ?_⟩
    · obtain ⟨f, hf, rfl, -⟩ := exists_field ht hkey
      exact ⟨_, get?_objectOfRow ht hf⟩
    · have hread := htakes f hf
      rw [Takes, hj] at hread
      exact ⟨_, hread⟩
  refine ⟨_, _, haccepts.valuesOfObject_eq ht htakes, fun i p => ?_⟩
  rw [hrow]
  constructor
  · rintro ⟨hi, hp, hassemble⟩
    rw [assemble_eq ht hi, Except.ok.injEq] at hassemble
    exact eq_map_of_rowValues_eq ht hi hp hassemble
  · rintro ⟨rfl, rfl⟩
    have hid := isIdentity_map ht htype
    exact ⟨hid, isPayload_map htype, by rw [assemble_eq ht hid, rowValues_map]⟩

end Table

/-- A fact that is read of a record fits the table. -/
theorem FactRecord.fits_of_toFact {r : FactRecord} {t : Table} (ht : t.Sound) {f : Fact}
    (h : r.toFact t = .ok f) : f.Fits t := by
  rw [toFact_eq] at h
  obtain ⟨⟨identity, payload⟩, hvalues, rfl⟩ := map_eq_ok.mp h
  obtain ⟨hidentity, hpayload, -⟩ := Table.reads_of_valuesOfObject ht hvalues
  exact ⟨hidentity, fun hpresent => by rwa [if_pos hpresent]⟩

namespace FactStore

variable {s : FactStore}

/-- The latest version refuses a fact as a conflict. -/
theorem conflict_of_judgeLatest {f : Fact} {found : Option Version} {e : Error}
    (h : s.judgeLatest f found = .error e) : ∃ cause, e = .conflict cause := by
  cases found with
  | none => cases h
  | some latest =>
    rw [judgeLatest] at h
    split at h
    · cases h
      exact ⟨_, rfl⟩
    · split at h
      · cases h
      · split at h <;> cases h
        exact ⟨_, rfl⟩

/-- A version is only unreadable by its key. -/
theorem undecodable_of_newest {entries : List (Bytes × StoredFact)} {e : Error}
    (h : newest entries = .error e) : e = .undecodable := by
  cases entries with
  | nil => cases h
  | cons entry entries =>
    rw [newest, readVersion] at h
    split at h <;> cases h
    rfl

/-- A fact that fits the table is never malformed to its store, whatever the
directory holds. -/
theorem append_ne_violation (hs : s.Sound) {f : Fact} (hf : f.Fits s.table) (d : Directory)
    (cause : Violation) : (s.append d f).2 ≠ .error (.violation cause) := by
  intro h
  rw [append] at h
  cases hjudge : s.judge d f with
  | error e =>
    rw [hjudge] at h
    cases h
    rw [History.judge_eq_of_fits hf] at hjudge
    cases hnewest : newest (s.versionEntries d (Key.ofIdentity f.identity)
        (Key.ofIdentity f.identity)) with
    | error e =>
      rw [hnewest] at hjudge
      cases hjudge
      cases undecodable_of_newest hnewest
    | ok found =>
      rw [hnewest] at hjudge
      obtain ⟨conflict, hconflict⟩ := conflict_of_judgeLatest hjudge
      cases hconflict
  | ok outcome =>
    cases outcome with
    | unchanged =>
      rw [hjudge] at h
      cases h
    | appended =>
      rw [hjudge] at h
      dsimp only at h
      rw [Layout.indexAll_eq (fun l hl => hs.reads_of_mem hl) hf.1] at h
      cases h

end FactStore

namespace Database

/-- Reading facts agrees with the schema. An object is read exactly if it has all
fields of the identity, no members but fields, and each member is a value of its
field. Then the identity and the payload pass their checks, the row has at each
field what the object says. A record with this object states a fact with this
identity, and with this payload or none, and no session that knows the table
refuses the fact as malformed. A row with plain forms is read back from its
object, as the only identity and payload with this row. -/
theorem valuesOfObject_reads_fields {t : Table} (ht : t.validate = .ok ()) :
    (∀ object,
      ((∃ identity payload, t.valuesOfObject object = .ok (identity, payload)) ↔
        t.Accepts object) ∧
      (∀ identity payload, t.valuesOfObject object = .ok (identity, payload) →
        t.checkIdentity identity = .ok () ∧ t.checkPayload payload = .ok () ∧
          ∃ row, t.assemble identity payload = .ok row ∧
            List.Forall₂ (Table.Takes object) t.fields row) ∧
      ∀ block present f, FactRecord.toFact t ⟨t.name, block, present, object⟩ = .ok f →
        (∃ identity payload, t.valuesOfObject object = .ok (identity, payload) ∧
          f = ⟨identity, block, present, if present then payload else []⟩) ∧
        ∀ d calls, let db := (ofDirectory d).run calls
          db.catalog.table t.name = .ok t →
            ∀ cause, (db.append t.name f).2 ≠ .error (.violation cause)) ∧
    ∀ row, row.map Value.type = t.fields.map (·.type) → (∀ v ∈ row, v.isFinite = true) →
      ∃ identity payload, t.valuesOfObject (t.objectOfRow row) = .ok (identity, payload) ∧
        ∀ i p, t.checkIdentity i = .ok () ∧ t.checkPayload p = .ok () ∧ t.assemble i p = .ok row ↔
          i = identity ∧ p = payload := by
  have hsound := Table.validate_eq_ok.mp ht
  refine ⟨fun object => ⟨⟨?_, fun haccepts => ?_⟩, fun identity payload hread => ?_,
    fun block present f hfact => ⟨?_, fun d calls => ?_⟩⟩, fun row htypes hfinite => ?_⟩
  · rintro ⟨identity, payload, hread⟩
    exact Table.accepts_of_valuesOfObject hsound hread
  · exact ⟨_, _, haccepts.valuesOfObject_eq hsound fun f hf => haccepts.takes_taken hsound hf⟩
  · rw [Table.checkIdentity_eq_ok, Table.checkPayload_eq_ok]
    exact Table.reads_of_valuesOfObject hsound hread
  · rw [FactRecord.toFact_eq] at hfact
    obtain ⟨values, hvalues, rfl⟩ := map_eq_ok.mp hfact
    exact ⟨values.1, values.2, hvalues, rfl⟩
  · intro db htable cause
    have hopened : db.Opened := (Opened.ofDirectory d).run calls
    obtain ⟨s, hs⟩ := hopened.table_store (Catalog.table_eq_ok.mp htable)
    have hname := hopened.store_table hs
    rw [Catalog.table_eq_ok.mp htable] at hname
    obtain rfl := Option.some.inj hname
    have hstore := FactStore.append_ne_violation (hopened.sound hs)
      (FactRecord.fits_of_toFact hsound hfact) db.directory cause
    rw [append, store_eq_ok.mpr hs]
    dsimp only
    cases hresult : s.append db.directory f with
    | mk d result =>
      rw [hresult] at hstore
      cases result with
      | error e => exact hstore
      | ok outcome =>
        intro h
        cases h
  · simp only [Table.checkIdentity_eq_ok, Table.checkPayload_eq_ok]
    exact Table.valuesOfObject_objectOfRow hsound htypes hfinite

/-- An item has its name between two other fields. An object without a note is
read, and its row has the default there. The fact is not refused as malformed by
a session that knows the table. An object without the name is not read. A row is
read back from its object. -/
theorem sample_valuesOfObject_reads_fields :
    let t : Table := ⟨"item", [⟨"size", .uint32⟩, ⟨"id", .string⟩, ⟨"note", .bytes⟩], ["id"]⟩
    let object : SortedMap String Json := .ofList [("id", .string "a"), ("size", .string "3")]
    let row : Tuple := [.uint32 3, .string "a", .bytes [255]]
    (∃ values, t.assemble [.string "a"] [.uint32 3, .bytes []] = .ok values ∧
      List.Forall₂ (Table.Takes object) t.fields values) ∧
      (∀ cause, (((ofDirectory .empty).run [.registerTable t]).append "item"
        (.live [.string "a"] 1 [.uint32 3, .bytes []])).2 ≠ .error (.violation cause)) ∧
      (¬∃ identity payload,
        t.valuesOfObject (.ofList [("size", .integer 3)]) = .ok (identity, payload)) ∧
      ∃ identity payload, t.valuesOfObject (t.objectOfRow row) = .ok (identity, payload) ∧
        t.assemble identity payload = .ok row := by
  intro t object row
  have ht : t.validate = .ok () := rfl
  obtain ⟨hobjects, hrows⟩ := valuesOfObject_reads_fields ht
  have hread : t.valuesOfObject object = .ok ([.string "a"], [.uint32 3, .bytes []]) :=
    eq_ok_of_toOption (by decide +kernel)
  have hfact : FactRecord.toFact t ⟨"item", 1, true, object⟩ =
      .ok (.live [.string "a"] 1 [.uint32 3, .bytes []]) := eq_ok_of_toOption (by decide +kernel)
  have htable : ((ofDirectory .empty).run [.registerTable t]).catalog.table "item" = .ok t :=
    eq_ok_of_toOption (by decide +kernel)
  obtain ⟨-, hvalues, happend⟩ := hobjects object
  obtain ⟨-, -, hrow⟩ := hvalues _ _ hread
  obtain ⟨identity, payload, hback, honly⟩ := hrows row (by decide +kernel) (by decide +kernel)
  obtain ⟨-, -, hsame⟩ := (honly identity payload).mpr ⟨rfl, rfl⟩
  refine ⟨hrow, (happend 1 true _ hfact).2 .empty _ htable, fun hnameless => ?_,
    identity, payload, hback, hsame⟩
  obtain ⟨j, hj⟩ := ((hobjects _).1.mp hnameless).key_mem "id" (List.mem_cons_self ..)
  have hnone : (SortedMap.ofList [("size", Json.integer 3)]).get? "id" = none := rfl
  rw [hnone] at hj
  cases hj

end Database
end Chronicle
