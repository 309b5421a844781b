import Chronicle.Schema.Table

/-!
# Tuples that fit a table

A table without a flaw names its fields once and takes its identity from them.
A tuple passes a check exactly when its values have the expected types, one for
one. The row of an identity and a payload is then determined by field names
alone: each field has the value that its name has in the identity or in the
payload, and its default if it has none.
-/

namespace Chronicle

/-- A result that is there was no failure. -/
theorem eq_ok_of_toOption {α ε : Type} {r : Except ε α} {a : α} (h : r.toOption = some a) :
    r = .ok a := by
  cases r with
  | error e => cases h
  | ok b => exact congrArg Except.ok (Option.some.inj h)

/-- A step that follows another succeeds if both do. -/
theorem bind_eq_ok {α β ε : Type} {first : Except ε α} {next : α → Except ε β} {b : β} :
    first >>= next = .ok b ↔ ∃ a, first = .ok a ∧ next a = .ok b := by
  cases first <;> simp [bind, Except.bind]

/-- A mapped result is there if the result is. -/
theorem map_eq_ok {α β ε : Type} {first : Except ε α} {f : α → β} {b : β} :
    first.map f = .ok b ↔ ∃ a, first = .ok a ∧ f a = b := by
  cases first <;> simp [Except.map]

/-- Steps that all succeed give the list of their results. -/
theorem mapM_ok {α β ε : Type} {l : List α} {step : α → Except ε β} {result : α → β}
    (h : ∀ a ∈ l, step a = .ok (result a)) : l.mapM step = .ok (l.map result) := by
  induction l with
  | nil => rfl
  | cons a l ih =>
    rw [List.mapM_cons, h a (List.mem_cons_self ..), ih fun b hb => h b (List.mem_cons_of_mem _ hb)]
    rfl

/-- A list without repeats has none that a scan reports. -/
theorem firstRepeat_eq_none {seen l : List String} :
    firstRepeat seen l = none ↔ l.Nodup ∧ ∀ x ∈ l, x ∉ seen := by
  induction l generalizing seen with
  | nil => simp [firstRepeat]
  | cons name rest ih =>
    rw [firstRepeat]
    split
    · simp [*]
    · rename_i hname
      rw [ih, List.nodup_cons, List.forall_mem_cons]
      constructor
      · rintro ⟨hrest, hseen⟩
        refine ⟨⟨fun hm => hseen name hm (List.mem_cons_self ..), hrest⟩, hname, fun x hx => ?_⟩
        exact fun hs => hseen x hx (List.mem_cons_of_mem _ hs)
      · rintro ⟨⟨hm, hrest⟩, -, hseen⟩
        refine ⟨hrest, fun x hx hs => ?_⟩
        rcases List.mem_cons.mp hs with rfl | hs
        · exact hm hx
        · exact hseen x hx hs

/-- The default of a type has that type. -/
theorem type_default (type : ScalarType) : type.default.type = type := by
  cases type <;> rfl

namespace Table

variable {t : Table}

/-- The names of an identity are fields and occur once. -/
theorem keyFlaw?_eq_none {seen l : List String} :
    t.keyFlaw? seen l = none ↔ l.Nodup ∧ ∀ x ∈ l, x ∈ t.fieldNames ∧ x ∉ seen := by
  induction l generalizing seen with
  | nil => simp [keyFlaw?]
  | cons key rest ih =>
    rw [keyFlaw?]
    split
    · simp [*]
    · split
      · simp [*]
      · rename_i hfield hseen
        rw [ih, List.nodup_cons, List.forall_mem_cons]
        constructor
        · rintro ⟨hrest, hall⟩
          refine ⟨⟨fun hm => (hall key hm).2 (List.mem_cons_self ..), hrest⟩,
            ⟨by simpa using hfield, hseen⟩, fun x hx => ⟨(hall x hx).1, fun hs => ?_⟩⟩
          exact (hall x hx).2 (List.mem_cons_of_mem _ hs)
        · rintro ⟨⟨hm, hrest⟩, -, hall⟩
          refine ⟨hrest, fun x hx => ⟨(hall x hx).1, fun hs => ?_⟩⟩
          rcases List.mem_cons.mp hs with rfl | hs
          · exact hm hx
          · exact (hall x hx).2 hs

/-- A table without a flaw. -/
structure Sound (t : Table) : Prop where
  /-- The table has a name. -/
  named : t.name ≠ ""
  /-- No two fields share a name. -/
  fields_nodup : t.fieldNames.Nodup
  /-- There is an identity. -/
  keys_ne_nil : t.keys ≠ []
  /-- No field is listed twice in the identity. -/
  keys_nodup : t.keys.Nodup
  /-- The identity is made of fields. -/
  key_mem : ∀ key ∈ t.keys, key ∈ t.fieldNames

/-- Exactly the tables without a flaw are accepted. -/
theorem validate_eq_ok : t.validate = .ok () ↔ t.Sound := by
  have hflaw : t.validate = .ok () ↔ t.flaw? = none := by
    rw [validate]
    cases t.flaw? <;> simp
  rw [hflaw, flaw?]
  constructor
  · intro h
    split at h
    · cases h
    · rename_i hname
      split at h
      · cases h
      · rename_i hrepeat
        split at h
        · cases h
        · rename_i hkeys
          obtain ⟨hnodup, hall⟩ := keyFlaw?_eq_none.mp h
          exact ⟨by simpa using hname, (firstRepeat_eq_none.mp hrepeat).1, by simpa using hkeys,
            hnodup, fun key hkey => (hall key hkey).1⟩
  · intro h
    have hrepeat : firstRepeat [] t.fieldNames = none :=
      firstRepeat_eq_none.mpr ⟨h.fields_nodup, by simp⟩
    have hkeys : t.keyFlaw? [] t.keys = none :=
      keyFlaw?_eq_none.mpr ⟨h.keys_nodup, fun key hkey => ⟨h.key_mem key hkey, by simp⟩⟩
    rw [if_neg (by simpa using h.named), hrepeat]
    simpa [h.keys_ne_nil] using hkeys

/-- Tuples of the expected length fit when no value has another type. -/
theorem misfit?_eq_none (position : Nat) {types : List ScalarType} {values : Tuple}
    (h : types.length = values.length) :
    misfit? position types values = none ↔ values.map Value.type = types := by
  induction types generalizing position values with
  | nil =>
    obtain rfl := List.length_eq_zero_iff.mp h.symm
    simp [misfit?]
  | cons type types ih =>
    cases values with
    | nil => simp at h
    | cons v values =>
      rw [misfit?]
      split
      · rename_i hv
        rw [ih _ (by simpa using h)]
        simpa [ScalarType.admits] using fun _ => by simpa [ScalarType.admits] using hv
      · rename_i hv
        simp only [reduceCtorEq, List.map_cons, List.cons.injEq, false_iff, not_and]
        intro hv'
        simp [ScalarType.admits, hv'] at hv

/-- A tuple passes a check exactly when it has the expected types. -/
theorem checkValues_eq_ok {part : FactPart} {types : List ScalarType} {values : Tuple} :
    t.checkValues part types values = .ok () ↔ values.map Value.type = types := by
  rw [checkValues]
  split
  · rename_i hlen
    simp only [reduceCtorEq, false_iff]
    rintro rfl
    simp at hlen
  · rename_i hlen
    rw [← misfit?_eq_none 0 (by simpa using hlen)]
    cases misfit? 0 types values <;> simp

/-- A failed check is a violation. -/
theorem checkValues_eq_error (part : FactPart) {types : List ScalarType} {values : Tuple}
    (h : values.map Value.type ≠ types) :
    ∃ cause, t.checkValues part types values = .error (.violation cause) := by
  rw [checkValues]
  split
  · exact ⟨_, rfl⟩
  · rename_i hlen
    have hmisfit := mt (misfit?_eq_none 0 (by simpa using hlen)).mp h
    cases hm : misfit? 0 types values with
    | none => exact absurd hm hmisfit
    | some found => exact ⟨_, rfl⟩

/-- Whether a tuple is an identity of the table, by its types. -/
def IsIdentity (t : Table) (identity : Tuple) : Prop := identity.map Value.type = t.keyTypes

/-- Whether a tuple is a payload of the table, by its types. -/
def IsPayload (t : Table) (payload : Tuple) : Prop := payload.map Value.type = t.payloadTypes

instance (t : Table) (identity : Tuple) : Decidable (t.IsIdentity identity) :=
  inferInstanceAs (Decidable (_ = _))

instance (t : Table) (payload : Tuple) : Decidable (t.IsPayload payload) :=
  inferInstanceAs (Decidable (_ = _))

theorem checkIdentity_eq_ok {identity : Tuple} :
    t.checkIdentity identity = .ok () ↔ t.IsIdentity identity := checkValues_eq_ok

theorem checkPayload_eq_ok {payload : Tuple} :
    t.checkPayload payload = .ok () ↔ t.IsPayload payload := checkValues_eq_ok

theorem isPayload_defaultPayload : t.IsPayload t.defaultPayload := by
  simp [IsPayload, defaultPayload, Function.comp_def, type_default]

/-- The fields of a table by name. -/
theorem field?_eq_some (h : t.Sound) {f : Field} : t.field? f.name = some f ↔ f ∈ t.fields := by
  have find_of_nodup {l : List Field} (hl : (l.map (·.name)).Nodup) (hf : f ∈ l) :
      l.find? (·.name == f.name) = some f := by
    induction l with
    | nil => simp at hf
    | cons g l ih =>
      rw [List.map_cons, List.nodup_cons] at hl
      rcases List.mem_cons.mp hf with rfl | hf
      · simp
      · have hne : g.name ≠ f.name := fun he => hl.1 (he ▸ List.mem_map_of_mem hf)
        rw [List.find?_cons_of_neg (by simpa using hne), ih hl.2 hf]
  exact ⟨List.mem_of_find?_eq_some, find_of_nodup h.fields_nodup⟩

/-- Every name of the identity has a field. -/
theorem exists_field (h : t.Sound) {key : String} (hkey : key ∈ t.keys) :
    ∃ f ∈ t.fields, f.name = key ∧ t.field? key = some f := by
  obtain ⟨f, hf, rfl⟩ := List.mem_map.mp (h.key_mem key hkey)
  exact ⟨f, hf, rfl, (field?_eq_some h).mpr hf⟩

/-- The types of an identity, name by name. -/
theorem keyTypes_eq_map (h : t.Sound) :
    t.keyTypes.map some = t.keys.map fun key => (t.field? key).map (·.type) := by
  have hall : ∀ key ∈ t.keys, ((t.field? key).map (·.type)).isSome = true := fun key hkey => by
    obtain ⟨f, -, -, hf⟩ := exists_field h hkey
    simp [hf]
  rw [keyTypes]
  generalize t.keys = keys at hall
  induction keys with
  | nil => rfl
  | cons key keys ih =>
    obtain ⟨type, htype⟩ := Option.isSome_iff_exists.mp (hall key (List.mem_cons_self ..))
    simp only [List.filterMap_cons, htype, List.map_cons]
    rw [ih fun k hk => hall k (List.mem_cons_of_mem _ hk)]

theorem length_keyTypes (h : t.Sound) : t.keyTypes.length = t.keys.length := by
  simpa using congrArg List.length (keyTypes_eq_map h)

/-- The type at a place of the identity is that of the field named there. -/
theorem keyTypes_getElem? (h : t.Sound) {f : Field} {p : Nat} (hf : t.field? f.name = some f)
    (hp : t.keyIndex? f.name = some p) : t.keyTypes[p]? = some f.type := by
  obtain ⟨hlt, hname, -⟩ := List.findIdx?_eq_some_iff_getElem.mp hp
  have hmap := congrArg (·[p]?) (keyTypes_eq_map h)
  simp only [List.getElem?_map, List.getElem?_eq_getElem hlt, Option.map_some] at hmap
  rw [eq_of_beq hname, hf, Option.map_some, Option.map_eq_some_iff] at hmap
  obtain ⟨type, htype, hsome⟩ := hmap
  rw [htype, hsome]

/-- What an identity and a payload say about each field name. -/
def record (t : Table) (identity payload : Tuple) : List (String × Value) :=
  t.keys.zip identity ++ (t.payloadFields.map (·.name)).zip payload

/-- The row of an identity and a payload, field by field. A field that they
say nothing about has its default. -/
def rowValues (t : Table) (identity payload : Tuple) : Tuple :=
  t.fields.map fun f => ((t.record identity payload).lookup f.name).getD f.type.default

theorem lookup_zip (names : List String) (values : Tuple) (name : String) :
    (names.zip values).lookup name = (names.findIdx? (· == name)).bind (values[·]?) := by
  induction names generalizing values with
  | nil => rfl
  | cons head names ih =>
    cases values with
    | nil => cases (head :: names).findIdx? (· == name) <;> rfl
    | cons v values =>
      rw [List.zip_cons_cons, List.lookup_cons, List.findIdx?_cons]
      by_cases hname : name = head
      · subst hname
        simp
      · have hne : (head == name) = false := by simpa using Ne.symm hname
        have hne' : (name == head) = false := by simpa using hname
        rw [hne', hne, ih]
        cases names.findIdx? (· == name) <;> simp

/-- An identity says nothing about the other fields. -/
theorem lookup_zip_eq_none {names : List String} {values : Tuple} {name : String}
    (h : name ∉ names) : (names.zip values).lookup name = none := by
  have hidx : names.findIdx? (· == name) = none := by
    rw [List.findIdx?_eq_none_iff]
    intro x hx
    exact beq_eq_false_iff_ne.mpr fun he => h (he ▸ hx)
  rw [lookup_zip, hidx, Option.bind_none]

theorem isKey_iff {name : String} : t.isKey name = true ↔ name ∈ t.keys := by
  simp [isKey, keyIndex?, List.findIdx?_isSome]

theorem nodup_payloadNames (ht : t.Sound) : (t.payloadFields.map (·.name)).Nodup :=
  (List.filter_sublist.map _).nodup ht.fields_nodup

theorem name_notMem_keys {f : Field} (hf : f ∈ t.payloadFields) : f.name ∉ t.keys := fun hkey => by
  have hkept := (List.mem_filter.mp hf).2
  rw [isKey_iff.mpr hkey] at hkept
  cases hkept

theorem mem_payloadFields {f : Field} (hf : f ∈ t.fields) (hkey : f.name ∉ t.keys) :
    f ∈ t.payloadFields :=
  List.mem_filter.mpr ⟨hf, by simpa [← isKey_iff] using hkey⟩

/-- The next payload value belongs to the first of the remaining fields outside
the identity, so values and names stay in step. -/
theorem assembleFields_eq {identity : Tuple} (hid : identity.length = t.keys.length)
    {fields : List Field} (hnodup : (fields.map (·.name)).Nodup) (payload : Tuple) :
    t.assembleFields identity fields payload = .ok (fields.map fun f =>
      (((t.keys.zip identity).lookup f.name).or
        ((((fields.filter fun f => !t.isKey f.name).map (·.name)).zip payload).lookup
          f.name)).getD f.type.default) := by
  induction fields generalizing payload with
  | nil => rfl
  | cons f rest ih =>
    rw [List.map_cons, List.nodup_cons] at hnodup
    obtain ⟨hf, hrest⟩ := hnodup
    have hne : ∀ g ∈ rest, (g.name == f.name) = false := fun g hg => by
      exact beq_eq_false_iff_ne.mpr fun he => hf (he ▸ List.mem_map_of_mem hg)
    rw [assembleFields.eq_def]
    dsimp only
    cases hp : t.keyIndex? f.name with
    | some position =>
      have hkey : t.isKey f.name = true := by rw [isKey, hp]; rfl
      obtain ⟨hlt, -, -⟩ := List.findIdx?_eq_some_iff_getElem.mp hp
      have hv : identity[position]? = some identity[position] :=
        List.getElem?_eq_getElem (hid ▸ hlt)
      have hlook : (t.keys.zip identity).lookup f.name = some identity[position] := by
        rw [lookup_zip, ← keyIndex?, hp, Option.bind_some, hv]
      simp only [hv, ih hrest, Except.map, hlook, List.map_cons, List.filter_cons, hkey,
        Bool.not_true, Bool.false_eq_true, if_false, Option.some_or, Option.getD_some]
    | none =>
      have hkey : t.isKey f.name = false := by rw [isKey, hp]; rfl
      have hlook : (t.keys.zip identity).lookup f.name = none :=
        lookup_zip_eq_none (by simpa [← isKey_iff] using hkey)
      have hnames : ((f :: rest).filter fun f => !t.isKey f.name).map (·.name) =
          f.name :: (rest.filter fun f => !t.isKey f.name).map (·.name) := by
        rw [List.filter_cons, if_pos (by simp [hkey]), List.map_cons]
      rw [hnames]
      cases payload with
      | nil =>
        simp only [ih hrest, Except.map, List.map_cons, hlook, List.zip_nil_right,
          List.lookup_nil, Option.none_or, Option.getD_none]
      | cons v more =>
        have htail : rest.map (fun g => (((t.keys.zip identity).lookup g.name).or
              ((((rest.filter fun f => !t.isKey f.name).map (·.name)).zip more).lookup
                g.name)).getD g.type.default) =
            rest.map fun g => (((t.keys.zip identity).lookup g.name).or
              (((f.name, v) :: ((rest.filter fun f => !t.isKey f.name).map (·.name)).zip
                more).lookup g.name)).getD g.type.default :=
          List.map_congr_left fun g hg => by rw [List.lookup_cons, hne g hg]
        simp only [ih hrest, Except.map, List.map_cons, hlook, List.zip_cons_cons,
          List.lookup_cons_self, Option.none_or, Option.getD_some, htail]

/-- Assembling never fails on an identity of the table, and pairs values with
names. -/
theorem assemble_eq (h : t.Sound) {identity : Tuple} (hid : t.IsIdentity identity)
    (payload : Tuple) : t.assemble identity payload = .ok (t.rowValues identity payload) := by
  have hlen : identity.length = t.keys.length := by
    rw [← length_keyTypes h, ← hid, List.length_map]
  rw [assemble, assembleFields_eq hlen h.fields_nodup, rowValues]
  simp only [record, List.lookup_append, payloadFields]

/-- Fields of one name are one field. -/
theorem eq_of_name_eq (h : t.Sound) {f g : Field} (hf : f ∈ t.fields) (hg : g ∈ t.fields)
    (he : f.name = g.name) : f = g := by
  have hfield := (field?_eq_some h).mpr hf
  rw [he, (field?_eq_some h).mpr hg] at hfield
  exact (Option.some.inj hfield).symm

/-- Defaults that are given are the defaults that are filled in. -/
theorem lookup_defaults (h : t.Sound) {f : Field} (hf : f ∈ t.fields) {fields : List Field}
    (hfields : ∀ g ∈ fields, g ∈ t.fields) :
    (((fields.map (·.name)).zip (fields.map (·.type.default))).lookup f.name).getD f.type.default =
      f.type.default := by
  induction fields with
  | nil => rfl
  | cons g fields ih =>
    obtain ⟨hg, hrest⟩ := List.forall_mem_cons.mp hfields
    rw [List.map_cons, List.map_cons, List.zip_cons_cons, List.lookup_cons]
    by_cases he : f.name = g.name
    · obtain rfl := eq_of_name_eq h hf hg he
      simp
    · rw [beq_eq_false_iff_ne.mpr he]
      exact ih hrest

/-- A row of defaults is a row without a payload. -/
theorem rowValues_defaultPayload (h : t.Sound) (identity : Tuple) :
    t.rowValues identity t.defaultPayload = t.rowValues identity [] := by
  refine List.map_congr_left fun f hf => ?_
  rw [record, record, List.lookup_append, List.lookup_append, List.zip_nil_right, List.lookup_nil]
  cases (t.keys.zip identity).lookup f.name with
  | some v => rfl
  | none =>
    rw [Option.none_or, Option.none_or, defaultPayload, payloadTypes, List.map_map]
    exact lookup_defaults h hf fun g hg => (List.mem_filter.mp hg).1

/-- What an identity says about a field has the type of the field. -/
theorem type_of_lookup_identity (h : t.Sound) {f : Field} (hf : f ∈ t.fields) {identity : Tuple}
    (hid : t.IsIdentity identity) {v : Value}
    (hv : (t.keys.zip identity).lookup f.name = some v) : v.type = f.type := by
  rw [lookup_zip, Option.bind_eq_some_iff] at hv
  obtain ⟨p, hp, hv⟩ := hv
  have htype := keyTypes_getElem? h ((field?_eq_some h).mpr hf) hp
  rw [← hid, List.getElem?_map, hv] at htype
  exact Option.some.inj htype

/-- What a payload says about a field has the type of the field. -/
theorem type_of_lookup_payload (h : t.Sound) {f : Field} (hf : f ∈ t.fields) {payload : Tuple}
    (hpayload : t.IsPayload payload ∨ payload = []) {v : Value}
    (hv : ((t.payloadFields.map (·.name)).zip payload).lookup f.name = some v) :
    v.type = f.type := by
  obtain hpayload | rfl := hpayload
  · rw [lookup_zip, Option.bind_eq_some_iff] at hv
    obtain ⟨p, hp, hv⟩ := hv
    obtain ⟨hlt, hname, -⟩ := List.findIdx?_eq_some_iff_getElem.mp hp
    rw [List.length_map] at hlt
    rw [List.getElem_map, beq_iff_eq] at hname
    have hmem := List.getElem_mem hlt
    have hfield := eq_of_name_eq h (List.mem_filter.mp hmem).1 hf hname
    have htype : (payload.map Value.type)[p]? = (t.payloadTypes)[p]? :=
      congrArg (·[p]?) hpayload
    rw [List.getElem?_map, hv, payloadTypes, List.getElem?_map, List.getElem?_eq_getElem hlt,
      hfield] at htype
    exact Option.some.inj htype
  · simp at hv

/-- A row has a value of its type for each field. -/
theorem types_rowValues (h : t.Sound) {identity payload : Tuple} (hid : t.IsIdentity identity)
    (hpayload : t.IsPayload payload ∨ payload = []) :
    (t.rowValues identity payload).map Value.type = t.fields.map (·.type) := by
  rw [rowValues, List.map_map]
  refine List.map_congr_left fun f hf => ?_
  rw [Function.comp_apply, record, List.lookup_append]
  cases hkey : (t.keys.zip identity).lookup f.name with
  | some v => exact type_of_lookup_identity h hf hid hkey
  | none =>
    rw [Option.none_or]
    cases hvalue : ((t.payloadFields.map (·.name)).zip payload).lookup f.name with
    | some v => exact type_of_lookup_payload h hf hpayload hvalue
    | none => exact type_default f.type

end Table
end Chronicle
