import Chronicle.Proofs.Provenance

/-!
# Recalled facts

A stored fact is read under the definition that its table has now. If this
definition agrees with the one under which the fact was filed, each field of
the row has the value that was stored for its name, or its default, and these
have the types of the present definition. The row of an identity is that of the
newest fact that was filed for it.
-/

namespace Chronicle

open FactStore

namespace Table

variable {t t' : Table}

/-- Whether facts of a table can be read under another definition of it. The
identity is the same, and the payload goes on alike as far as both go. -/
structure Agrees (t t' : Table) : Prop where
  /-- The identity has the same fields. -/
  keys_eq : t'.keys = t.keys
  /-- They have the same types. -/
  keyTypes_eq : t'.keyTypes = t.keyTypes
  /-- One payload is the beginning of the other. -/
  payload_begins : t'.payloadFields <+: t.payloadFields ∨ t.payloadFields <+: t'.payloadFields

theorem agrees_iff : t.Agrees t' ↔ t'.keys = t.keys ∧ t'.keyTypes = t.keyTypes ∧
    (t'.payloadFields <+: t.payloadFields ∨ t.payloadFields <+: t'.payloadFields) :=
  ⟨fun h => ⟨h.keys_eq, h.keyTypes_eq, h.payload_begins⟩, fun h => ⟨h.1, h.2.1, h.2.2⟩⟩

instance (t t' : Table) : Decidable (t.Agrees t') := decidable_of_iff' _ agrees_iff

theorem Agrees.refl (t : Table) : t.Agrees t := ⟨rfl, rfl, .inl (List.prefix_refl _)⟩

theorem Agrees.isIdentity_iff (h : t.Agrees t') {i : Tuple} : t'.IsIdentity i ↔ t.IsIdentity i := by
  rw [IsIdentity, IsIdentity, h.keyTypes_eq]

/-- A payload says the same about a name if further names come after it. -/
theorem lookup_zip_append {names more : List String} {values : Tuple} {name : String}
    (h : name ∉ more ∨ values.length ≤ names.length) :
    ((names ++ more).zip values).lookup name = (names.zip values).lookup name := by
  rw [lookup_zip, lookup_zip, List.findIdx?_append]
  cases names.findIdx? (· == name) with
  | some p => rfl
  | none =>
    rw [Option.none_or, Option.bind_none, Option.bind_eq_none_iff]
    intro p hp
    obtain ⟨q, hq, rfl⟩ := Option.map_eq_some_iff.mp hp
    obtain ⟨hlt, hname, -⟩ := List.findIdx?_eq_some_iff_getElem.mp hq
    obtain hmore | hshort := h
    · exact absurd (eq_of_beq hname ▸ List.getElem_mem hlt) hmore
    · exact List.getElem?_eq_none (by omega)

/-- What is stored says the same about a field under both definitions. -/
theorem Agrees.lookup_record (h : t.Agrees t') (ht : t.Sound) (identity : Tuple) {payload : Tuple}
    (hpayload : t.IsPayload payload ∨ payload = []) {f : Field} (hf : f ∈ t'.fields) :
    (t'.record identity payload).lookup f.name = (t.record identity payload).lookup f.name := by
  have hnames : ((t'.payloadFields.map (·.name)).zip payload).lookup f.name =
      ((t.payloadFields.map (·.name)).zip payload).lookup f.name := by
    obtain ⟨more, hmore⟩ | ⟨more, hmore⟩ := h.payload_begins
    · rw [← hmore, List.map_append]
      refine (lookup_zip_append (.inl fun hname => ?_)).symm
      -- A further field of the old definition would have the name of this one.
      obtain ⟨g, hg, hsame⟩ := List.mem_map.mp hname
      have hgmem : g ∈ t.payloadFields := hmore ▸ List.mem_append_right _ hg
      by_cases hkey : f.name ∈ t'.keys
      · exact name_notMem_keys hgmem (hsame ▸ h.keys_eq ▸ hkey)
      · have hnodup := nodup_payloadNames ht
        rw [← hmore, List.map_append, List.nodup_append] at hnodup
        exact hnodup.2.2 _ (List.mem_map_of_mem (mem_payloadFields hf hkey)) _ hname rfl
    · rw [← hmore, List.map_append]
      refine lookup_zip_append (.inr ?_)
      obtain hpayload | rfl := hpayload
      · have hlength := congrArg List.length hpayload
        rw [List.length_map, payloadTypes, List.length_map] at hlength
        rw [List.length_map, hlength]
      · exact Nat.zero_le _
  rw [record, record, List.lookup_append, List.lookup_append, hnames, h.keys_eq]

/-- A field that a payload says something about is one of both definitions. -/
theorem Agrees.mem_fields_of_lookup (h : t.Agrees t') (ht' : t'.Sound) {payload : Tuple}
    {f : Field} (hf : f ∈ t'.payloadFields) {v : Value}
    (hv : ((t.payloadFields.map (·.name)).zip payload).lookup f.name = some v) : f ∈ t.fields := by
  obtain hbegins | hbegins := h.payload_begins
  · exact (List.mem_filter.mp (hbegins.subset hf)).1
  · have hname : f.name ∈ t.payloadFields.map (·.name) := by
      by_contra hname
      rw [lookup_zip_eq_none hname] at hv
      cases hv
    obtain ⟨g, hg, hsame⟩ := List.mem_map.mp hname
    have hg' := (List.mem_filter.mp (hbegins.subset hg)).1
    obtain rfl := eq_of_name_eq ht' hg' (List.mem_filter.mp hf).1 hsame
    exact (List.mem_filter.mp hg).1

end Table

namespace FiledFact

variable {y : FiledFact} {t : Table} {f : Field}

/-- What a filed fact says about a field: the value that was stored for its
name, or its default if there was none. -/
def value (y : FiledFact) (f : Field) : Value :=
  ((y.table.record y.fact.identity y.fact.version.payload).lookup f.name).getD f.type.default

/-- A filed fact that fits its definition, which agrees with the present one. -/
structure ReadableAs (y : FiledFact) (t : Table) : Prop where
  /-- The old definition has no flaw. -/
  sound : y.table.Sound
  /-- The fact fits it. -/
  fits : y.fact.Fits y.table
  /-- It agrees with the present one. -/
  agrees : y.table.Agrees t

theorem ReadableAs.isIdentity (h : y.ReadableAs t) : t.IsIdentity y.fact.identity :=
  h.agrees.isIdentity_iff.mpr h.fits.1

theorem ReadableAs.isPayload (h : y.ReadableAs t) :
    y.table.IsPayload y.fact.version.payload ∨ y.fact.version.payload = [] := by
  dsimp only [Fact.version]
  split
  · exact .inl (h.fits.2 ‹_›)
  · exact .inr rfl

/-- The row of a filed fact has what the fact says, field by field. -/
theorem ReadableAs.rowValues_eq (h : y.ReadableAs t) :
    t.rowValues y.fact.identity y.fact.version.payload = t.fields.map y.value :=
  List.map_congr_left fun f hf => by
    rw [h.agrees.lookup_record h.sound y.fact.identity h.isPayload hf, value]

/-- What a filed fact says about a field has the present type of the field. -/
theorem ReadableAs.type_value (h : y.ReadableAs t) (ht : t.Sound) (hf : f ∈ t.fields) :
    (y.value f).type = f.type := by
  rw [value, Table.record, List.lookup_append, ← h.agrees.keys_eq]
  cases hkey : (t.keys.zip y.fact.identity).lookup f.name with
  | some v => exact Table.type_of_lookup_identity ht hf h.isIdentity hkey
  | none =>
    rw [Option.none_or]
    cases hvalue : ((y.table.payloadFields.map (·.name)).zip y.fact.version.payload).lookup
        f.name with
    | none => exact type_default f.type
    | some v =>
      by_cases hmem : f.name ∈ t.keys
      · -- A name of the identity is not one of the payload.
        have hother : f.name ∉ y.table.payloadFields.map (·.name) := fun hname => by
          obtain ⟨g, hg, hsame⟩ := List.mem_map.mp hname
          exact Table.name_notMem_keys hg (hsame ▸ h.agrees.keys_eq ▸ hmem)
        rw [Table.lookup_zip_eq_none hother] at hvalue
        cases hvalue
      · have hfield := h.agrees.mem_fields_of_lookup ht (Table.mem_payloadFields hf hmem) hvalue
        exact Table.type_of_lookup_payload h.sound hfield h.isPayload hvalue

theorem ReadableAs.types_eq (h : y.ReadableAs t) (ht : t.Sound) :
    (t.fields.map y.value).map Value.type = t.fields.map (·.type) := by
  rw [List.map_map]
  exact List.map_congr_left fun f hf => h.type_value ht hf

/-- The row of a filed fact under the present definition of its table. -/
def row (y : FiledFact) (t : Table) : Row :=
  ⟨y.fact.block, y.fact.present, t.fields.map y.value⟩

/-- The newest fact that was filed for an identity of a table up to a block. -/
def newest? (facts : List FiledFact) (table : String) (i : Tuple) (block : UInt64) :
    Option FiledFact :=
  facts.find? fun y => y.table.name = table ∧ y.fact.identity = i ∧ y.fact.block ≤ block

theorem of_newest? {facts : List FiledFact} {table : String} {i : Tuple} {block : UInt64}
    (h : newest? facts table i block = some y) :
    y ∈ facts ∧ y.table.name = table ∧ y.fact.identity = i ∧ y.fact.block ≤ block :=
  ⟨List.mem_of_find?_eq_some h, by simpa using List.find?_some h⟩

/-- The history of a table sees the newest fact that was filed for it. -/
theorem versionAt_ofFiled (facts : List FiledFact) (table : String) (i : Tuple) (block : UInt64) :
    (History.ofFiled facts table).versionAt i block =
      (newest? facts table i block).map (·.fact.version) := by
  rw [History.versionAt, History.versions, History.ofFiled, newest?, List.filter_map,
    List.filter_filter, List.find?_map, List.find?_map, List.find?_filter, Option.map_map]
  refine congrArg _ (congrArg (List.find? · facts) (funext fun y => ?_))
  rw [decide_eq_decide]
  simp only [Function.comp_apply, Bool.and_eq_true, decide_eq_true_eq]
  rw [and_comm (a := y.fact.identity = i), and_assoc]
  rfl

end FiledFact

namespace FactStore

variable {s : FactStore} {d : Directory} {facts : List FiledFact} {i : Tuple} {block : UInt64}

/-- A store in order on a directory that holds the facts that were filed, those
of its table under definitions that agree with the present one. -/
structure Recalls (s : FactStore) (d : Directory) (facts : List FiledFact) : Prop where
  /-- The store is in order. -/
  sound : s.Sound
  /-- A fact of the table can be read. -/
  readable : ∀ y ∈ facts, y.table.name = s.table.name → y.ReadableAs s.table
  /-- The facts are stored. -/
  holds : d.Holds facts

/-- A version that is seen is that of the newest fact. -/
theorem Recalls.versionAt_eq (h : s.Recalls d facts) (hi : s.table.IsIdentity i)
    (block : UInt64) : s.versionAt d i block =
      .ok ((FiledFact.newest? facts s.table.name i block).map (·.fact.version)) := by
  have hlen : ∀ f ∈ History.ofFiled facts s.table.name, i.length = f.identity.length := by
    intro f hf
    obtain ⟨y, hy, rfl⟩ := List.mem_map.mp hf
    obtain ⟨hy, hname⟩ := List.mem_filter.mp hy
    exact History.length_identity hi (h.readable y hy (of_decide_eq_true hname)).isIdentity
  have hheld := h.holds s.table.name i.length fun f hf => (hlen f hf).symm
  rw [← FiledFact.versionAt_ofFiled]
  exact hheld.versionAt_eq hi hlen block

/-- The row of a version is made of the identity and the stored payload. -/
theorem toRow_ofVersion {t : Table} (ht : t.Sound) (hi : t.IsIdentity i) (f : Fact) :
    (Resolution.ofVersion (some f.version)).toRow t i =
      .ok (some ⟨f.block, f.present, t.rowValues i f.version.payload⟩) := by
  cases hpresent : f.present with
  | true =>
    have hversion : Resolution.ofVersion (some f.version) = .live f.version := if_pos hpresent
    rw [hversion, Resolution.toRow, Table.assemble_eq ht hi]
    simp [Except.map, Fact.version]
  | false =>
    have hversion : Resolution.ofVersion (some f.version) = .tombstone f.block :=
      if_neg (by simp [Fact.version, hpresent])
    rw [hversion, Resolution.toRow, Table.assemble_eq ht hi, Table.rowValues_defaultPayload ht]
    simp [Except.map, Fact.version, hpresent]

/-- A row that is seen is that of the newest fact, field by field. -/
theorem Recalls.resolveRow_eq (h : s.Recalls d facts) (hi : s.table.IsIdentity i)
    (block : UInt64) : s.resolveRow d i block =
      .ok ((FiledFact.newest? facts s.table.name i block).map (·.row s.table)) := by
  rw [resolveRow, resolve, h.versionAt_eq hi]
  cases hnewest : FiledFact.newest? facts s.table.name i block with
  | none => rfl
  | some y =>
    obtain ⟨hy, hname, hidentity, -⟩ := FiledFact.of_newest? hnewest
    dsimp only [Option.map, Except.map, bind, Except.bind]
    rw [toRow_ofVersion h.sound.table hi, ← hidentity, (h.readable y hy hname).rowValues_eq,
      FiledFact.row]

end FactStore

end Chronicle
