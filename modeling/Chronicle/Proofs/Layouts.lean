import Chronicle.Proofs.Expressions
import Chronicle.Proofs.KeyOrder
import Chronicle.Proofs.TypedTuples
import Chronicle.Schema.Index

/-!
# Places in an index

A layout that was compiled for a table finds a place for every bound of its
shape and for every identity of the table. Places are ordered like the
projected tuples. Expressions lose information, but each identity field is also
read as it is by some component, so a place belongs to one identity.
-/

namespace Chronicle

/-- Steps of which all succeeded have one result each. -/
theorem map_of_mapM_ok {α β ε : Type} {step : α → Except ε β} {l : List α} {results : List β}
    (h : l.mapM step = .ok results) : l.map step = results.map .ok := by
  induction l generalizing results with
  | nil =>
    cases h
    rfl
  | cons a l ih =>
    rw [List.mapM_cons] at h
    cases ha : step a with
    | error e => simp [ha, bind, Except.bind] at h
    | ok first =>
      cases hl : l.mapM step with
      | error e => simp [ha, hl, bind, Except.bind] at h
      | ok rest =>
        simp only [ha, hl, bind, Except.bind, pure, Except.pure, Except.ok.injEq] at h
        subst h
        rw [List.map_cons, List.map_cons, ha, ih hl]

/-- Steps of which all succeeded have each result from some element. -/
theorem exists_of_mapM_ok {α β ε : Type} {step : α → Except ε β} {l : List α} {results : List β}
    (h : l.mapM step = .ok results) : ∀ b ∈ results, ∃ a ∈ l, step a = .ok b := by
  intro b hb
  have hresult : Except.ok b ∈ l.map step := map_of_mapM_ok h ▸ List.mem_map_of_mem hb
  exact List.mem_map.mp hresult

theorem forall_ok_of_mapM_ok {α β ε : Type} {step : α → Except ε β} {l : List α}
    {results : List β} (h : l.mapM step = .ok results) : ∀ a ∈ l, ∃ b, step a = .ok b := by
  intro a ha
  have hstep : step a ∈ results.map .ok := map_of_mapM_ok h ▸ List.mem_map_of_mem ha
  obtain ⟨b, -, hb⟩ := List.mem_map.mp hstep
  exact ⟨b, hb.symm⟩

/-- Steps of which all succeeded are followed by a lookup that finds the tag of
each result. -/
theorem mapM_some_of_ok {α β γ ε : Type} {step : α → Except ε β} {look : α → Option γ}
    {tag : β → γ} (hlook : ∀ a b, step a = .ok b → look a = some (tag b)) {l : List α}
    {results : List β} (h : l.mapM step = .ok results) : l.mapM look = some (results.map tag) := by
  induction l generalizing results with
  | nil =>
    cases h
    rfl
  | cons a l ih =>
    rw [List.mapM_cons] at h
    cases ha : step a with
    | error e => simp [ha, bind, Except.bind] at h
    | ok first =>
      cases hl : l.mapM step with
      | error e => simp [ha, hl, bind, Except.bind] at h
      | ok rest =>
        simp only [ha, hl, bind, Except.bind, pure, Except.pure, Except.ok.injEq] at h
        subst h
        rw [List.mapM_cons, hlook a first ha, ih hl]
        rfl

namespace LayoutKey

/-- Whether the expression of a component applies to the type of its field. -/
def Applies (k : LayoutKey) : Prop :=
  ∀ e, k.expression = some e → e.outputType k.type = .ok k.type

/-- The value in the order of a component, for a value of its type. -/
def projected (k : LayoutKey) (v : Value) : Value :=
  match k.project v with
  | .ok w => w
  | .error _ => v

theorem project_eq {k : LayoutKey} {v : Value} (hk : k.Applies) (hv : v.type = k.type) :
    k.project v = .ok (k.projected v) := by
  cases he : k.expression with
  | none => simp [projected, project, he]
  | some e =>
    have ho : e.outputType v.type = .ok k.type := hv ▸ hk e he
    obtain ⟨w, hw, -⟩ := Expression.exists_apply ho
    simp [projected, project, he, hw]

theorem projected_of_plain {k : LayoutKey} (h : k.expression = none) (v : Value) :
    k.projected v = v := by
  simp [projected, project, h]

end LayoutKey

namespace Layout

/-- A layout that reads the identities of a table. -/
structure Reads (l : Layout) (t : Table) : Prop where
  /-- It belongs to the table. -/
  table_eq : l.table = t.name
  /-- Each component reads a field of the identity. -/
  key_type : ∀ k ∈ l.keys, t.keyTypes[k.position]? = some k.type
  /-- Each expression applies. -/
  applies : ∀ k ∈ l.keys, k.Applies
  /-- Each field of the identity is read as it is. -/
  covered : ∀ p < t.keyTypes.length, ∃ k ∈ l.keys, k.expression = none ∧ k.position = p

/-- Whether a tuple is a bound, by its types. -/
def IsBound (l : Layout) (bound : Tuple) : Prop :=
  bound.map Value.type = l.keys.map (·.type)

instance (l : Layout) (bound : Tuple) : Decidable (l.IsBound bound) :=
  inferInstanceAs (Decidable (_ = _))

/-- The sort-key values of an identity, without those that it lacks. -/
def rawBound (l : Layout) (identity : Tuple) : Tuple := l.keys.filterMap (identity[·.position]?)

/-- The values of a bound in the order of the components. -/
def projected (l : Layout) (bound : Tuple) : Tuple := List.zipWith LayoutKey.projected l.keys bound

/-- The place of a bound in the index. -/
def placeOf (l : Layout) (bound : Tuple) : Bytes := l.encode (l.projected bound)

/-- Bounds of the expected length fit when no value has another type. -/
theorem misfit?_eq_none {keys : List LayoutKey} {bound : Tuple} (h : bound.length = keys.length) :
    misfit? keys bound = none ↔ bound.map Value.type = keys.map (·.type) := by
  induction keys generalizing bound with
  | nil =>
    obtain rfl := List.length_eq_zero_iff.mp h
    simp [misfit?]
  | cons k keys ih =>
    cases bound with
    | nil => simp at h
    | cons v bound =>
      rw [misfit?]
      split
      · rename_i hv
        have hv' : v.type = k.type := by simpa [ScalarType.admits] using hv
        rw [ih (by simpa using h), List.map_cons, List.map_cons, hv']
        simp
      · rename_i hv
        have hv' : v.type ≠ k.type := by simpa [ScalarType.admits] using hv
        simp [hv']

/-- A bound passes its check exactly when it has the expected types. -/
theorem checkBound_eq_ok {l : Layout} {bound : Tuple} :
    l.checkBound bound = .ok () ↔ l.IsBound bound := by
  rw [checkBound]
  split
  · rename_i hlen
    simp only [reduceCtorEq, false_iff]
    intro h
    exact hlen (by simpa using congrArg List.length h)
  · rename_i hlen
    rw [IsBound, ← misfit?_eq_none (by simpa using hlen)]
    cases misfit? l.keys bound <;> simp

/-- A bound that fails its check is a violation. -/
theorem checkBound_eq_error {l : Layout} {bound : Tuple} (h : ¬l.IsBound bound) :
    ∃ cause, l.checkBound bound = .error (.violation cause) := by
  rw [checkBound]
  split
  · exact ⟨_, rfl⟩
  · rename_i hlen
    have hmisfit := mt (misfit?_eq_none (by simpa using hlen)).mp h
    cases hm : misfit? l.keys bound with
    | none => exact absurd hm hmisfit
    | some found => exact ⟨_, rfl⟩

theorem projectKeys_eq {keys : List LayoutKey} (hk : ∀ k ∈ keys, k.Applies) {bound : Tuple}
    (hb : bound.map Value.type = keys.map (·.type)) :
    projectKeys keys bound = .ok (List.zipWith LayoutKey.projected keys bound) := by
  induction keys generalizing bound with
  | nil => cases bound <;> rfl
  | cons k keys ih =>
    cases bound with
    | nil => simp at hb
    | cons v bound =>
      rw [List.map_cons, List.map_cons, List.cons.injEq] at hb
      rw [projectKeys, LayoutKey.project_eq (hk k (List.mem_cons_self ..)) hb.1,
        ih (fun k' hk' => hk k' (List.mem_cons_of_mem _ hk')) hb.2]
      rfl

section Reading

variable {l : Layout} {t : Table} {i j : Tuple}

theorem Reads.project_eq (hl : l.Reads t) {bound : Tuple} (hb : l.IsBound bound) :
    l.project bound = .ok (l.projected bound) := projectKeys_eq hl.applies hb

/-- Every bound has a place. -/
theorem Reads.positionOfBound_eq (hl : l.Reads t) {bound : Tuple} (hb : l.IsBound bound) :
    l.positionOfBound bound = .ok (l.placeOf bound) := by
  rw [positionOfBound, checkBound_eq_ok.mpr hb, hl.project_eq hb]
  rfl

/-- An identity has a value for each component. -/
theorem Reads.getElem?_position (hl : l.Reads t) (hi : t.IsIdentity i) {k : LayoutKey}
    (hk : k ∈ l.keys) : ∃ v, i[k.position]? = some v ∧ v.type = k.type := by
  have htype := hl.key_type k hk
  rw [← hi, List.getElem?_map, Option.map_eq_some_iff] at htype
  exact htype

theorem filterMap_position {keys : List LayoutKey}
    (h : ∀ k ∈ keys, ∃ v, i[k.position]? = some v ∧ v.type = k.type) :
    (keys.filterMap (i[·.position]?)).map Value.type = keys.map (·.type) ∧
      (keys.filterMap (i[·.position]?)).map some = keys.map (i[·.position]?) := by
  induction keys with
  | nil => exact ⟨rfl, rfl⟩
  | cons k keys ih =>
    obtain ⟨v, hv, htype⟩ := h k (List.mem_cons_self ..)
    obtain ⟨htypes, hsome⟩ := ih fun k' hk' => h k' (List.mem_cons_of_mem _ hk')
    simp [hv, htype, htypes, hsome]

theorem Reads.isBound_rawBound (hl : l.Reads t) (hi : t.IsIdentity i) : l.IsBound (l.rawBound i) :=
  (filterMap_position fun _ hk => hl.getElem?_position hi hk).1

theorem Reads.map_some_rawBound (hl : l.Reads t) (hi : t.IsIdentity i) :
    (l.rawBound i).map some = l.keys.map (i[·.position]?) :=
  (filterMap_position fun _ hk => hl.getElem?_position hi hk).2

/-- The bound of an identity is read without a failure. -/
theorem Reads.boundOf_eq (hl : l.Reads t) (hi : t.IsIdentity i) :
    l.boundOf i = .ok (l.rawBound i) := by
  have hbound : l.boundOf i = .ok (l.keys.map fun k => (i[k.position]?).getD default) :=
    mapM_ok fun k hk => by
      obtain ⟨v, hv, -⟩ := hl.getElem?_position hi hk
      simp [hv]
  have hraw := congrArg (List.map (Option.getD · default)) (hl.map_some_rawBound hi)
  rw [hbound]
  simpa [Function.comp_def] using hraw.symm

/-- Every identity has a place. -/
theorem Reads.positionOfIdentity_eq (hl : l.Reads t) (hi : t.IsIdentity i) :
    l.positionOfIdentity i = .ok (l.placeOf (l.rawBound i)) := by
  rw [positionOfIdentity, hl.boundOf_eq hi]
  exact congrArg (· >>= fun p => pure (l.encode p)) (hl.project_eq (hl.isBound_rawBound hi))

/-- Places are ordered like the projected tuples. -/
theorem compare_placeOf (l : Layout) (a b : Tuple) :
    compare (l.placeOf a) (l.placeOf b) = l.comparator.compare (l.projected a) (l.projected b) :=
  Key.compare_ofTuple l.directions _ _

/-- Tuples that agree after projection agree where a component reads the value
as it is, whatever it makes of the other values. -/
theorem getElem?_eq_of_projected_eq {projected : LayoutKey → Value → Value}
    (hplain : ∀ {k : LayoutKey}, k.expression = none → ∀ v, projected k v = v)
    {keys : List LayoutKey}
    (hi : ∀ k ∈ keys, ∃ v, i[k.position]? = some v ∧ v.type = k.type)
    (hj : ∀ k ∈ keys, ∃ v, j[k.position]? = some v ∧ v.type = k.type)
    (h : List.zipWith projected keys (keys.filterMap (i[·.position]?)) =
      List.zipWith projected keys (keys.filterMap (j[·.position]?)))
    {k : LayoutKey} (hk : k ∈ keys) (hexpression : k.expression = none) :
    i[k.position]? = j[k.position]? := by
  induction keys with
  | nil => simp at hk
  | cons first keys ih =>
    obtain ⟨v, hv, -⟩ := hi first (List.mem_cons_self ..)
    obtain ⟨w, hw, -⟩ := hj first (List.mem_cons_self ..)
    simp only [List.filterMap_cons, hv, hw, List.zipWith_cons_cons, List.cons.injEq] at h
    rcases List.mem_cons.mp hk with rfl | hk
    · rw [hplain hexpression, hplain hexpression] at h
      rw [hv, hw, h.1]
    · exact ih (fun k' hk' => hi k' (List.mem_cons_of_mem _ hk'))
        (fun k' hk' => hj k' (List.mem_cons_of_mem _ hk')) h.2 hk

/-- Identities that agree after projection are equal, because each field is
read as it is by some component. -/
theorem Reads.eq_of_projected_eq (hl : l.Reads t) (hi : t.IsIdentity i) (hj : t.IsIdentity j)
    {projected : LayoutKey → Value → Value}
    (hplain : ∀ {k : LayoutKey}, k.expression = none → ∀ v, projected k v = v)
    (h : List.zipWith projected l.keys (l.rawBound i) =
      List.zipWith projected l.keys (l.rawBound j)) : i = j := by
  have hleni : i.length = t.keyTypes.length := by rw [← hi, List.length_map]
  have hlenj : j.length = t.keyTypes.length := by rw [← hj, List.length_map]
  refine List.ext_getElem? fun p => ?_
  by_cases hp : p < t.keyTypes.length
  · obtain ⟨k, hk, hexpression, rfl⟩ := hl.covered p hp
    exact getElem?_eq_of_projected_eq hplain (fun _ hk => hl.getElem?_position hi hk)
      (fun _ hk => hl.getElem?_position hj hk) h hk hexpression
  · rw [List.getElem?_eq_none (by omega), List.getElem?_eq_none (by omega)]

/-- A place belongs to one identity. -/
theorem Reads.placeOf_inj (hl : l.Reads t) (hi : t.IsIdentity i) (hj : t.IsIdentity j) :
    l.placeOf (l.rawBound i) = l.placeOf (l.rawBound j) ↔ i = j := by
  refine ⟨fun h => ?_, fun h => h ▸ rfl⟩
  have hprojected : l.projected (l.rawBound i) = l.projected (l.rawBound j) := Key.ofTuple_inj.mp h
  exact hl.eq_of_projected_eq hi hj LayoutKey.projected_of_plain hprojected

end Reading

end Layout

namespace Index

/-- Without an uncovered field, every remaining field is read as it is. -/
theorem covered_of_uncovered?_eq_none {keys : List LayoutKey} {position : Nat} {names : List String}
    (h : uncovered? keys position names = none) :
    ∀ p < names.length, ∃ k ∈ keys, k.expression = none ∧ k.position = position + p := by
  induction names generalizing position with
  | nil => simp
  | cons name names ih =>
    rw [uncovered?] at h
    split at h
    · rename_i hany
      intro p hp
      cases p with
      | zero =>
        obtain ⟨k, hk, hcovers⟩ := List.any_eq_true.mp hany
        simp only [covers, Bool.and_eq_true, Option.isNone_iff_eq_none, beq_iff_eq] at hcovers
        exact ⟨k, hk, hcovers⟩
      | succ p =>
        obtain ⟨k, hk, hplain, hposition⟩ := ih h p (by simpa using hp)
        exact ⟨k, hk, hplain, by omega⟩
    · cases h

/-- A compiled component has the place and the type of the field of its sort key,
and applies to that type. -/
theorem compileKey_eq_ok {i : Index} {t : Table} {s : SortKey} {k : LayoutKey}
    (h : i.compileKey t s = .ok k) :
    ∃ position f, t.keyIndex? s.field = some position ∧ t.field? s.field = some f ∧
      k = ⟨s.field, position, f.type, s.expression, s.direction⟩ ∧ k.Applies := by
  rw [compileKey] at h
  split at h
  · cases h
  · rename_i position hposition
    split at h
    · cases h
    · rename_i f hf
      dsimp only at h
      split at h
      · rename_i hplain
        cases h
        exact ⟨position, f, hposition, hf, rfl, fun e he => by simp [hplain] at he⟩
      · rename_i e he
        cases ho : e.outputType f.type with
        | error cause => simp [ho, Except.map] at h
        | ok output =>
          simp only [ho, Except.map, Except.ok.injEq] at h
          subst h
          refine ⟨position, f, hposition, hf, rfl, fun e' he' => ?_⟩
          obtain rfl : e = e' := by simpa [he] using he'
          rw [ho, Expression.outputType_eq ho]

/-- A compiled component reads a field of the identity and applies to it. -/
theorem compileKey_reads {i : Index} {t : Table} (ht : t.Sound) {s : SortKey} {k : LayoutKey}
    (h : i.compileKey t s = .ok k) : t.keyTypes[k.position]? = some k.type ∧ k.Applies := by
  obtain ⟨position, f, hposition, hf, rfl, happlies⟩ := compileKey_eq_ok h
  have hname : f.name = s.field := by simpa using List.find?_some hf
  exact ⟨Table.keyTypes_getElem? ht (hname ▸ hf) (hname ▸ hposition), happlies⟩

/-- A compiled index has one component for each sort key, and none of its fields
is left uncovered. -/
theorem compile_eq_ok {i : Index} {t : Table} {l : Layout} (h : i.compile t = .ok l) :
    i.table = t.name ∧ i.sortKeys.mapM (i.compileKey t) = .ok l.keys ∧
      uncovered? l.keys 0 t.keys = none ∧ l = ⟨i.name, i.table, l.keys⟩ := by
  rw [compile] at h
  split at h
  · cases h
  · rename_i htable
    split at h
    · cases h
    · split at h
      · cases h
      · rename_i keys hkeys
        split at h
        · cases h
        · rename_i huncovered
          cases h
          exact ⟨by simpa using htable, hkeys, huncovered, rfl⟩

/-- A compiled index has its name, and reads the identities of its table. -/
theorem reads_of_compile {i : Index} {t : Table} (ht : t.Sound) {l : Layout}
    (h : i.compile t = .ok l) : l.name = i.name ∧ i.table = t.name ∧ l.Reads t := by
  obtain ⟨htable, hkeys, huncovered, hl⟩ := compile_eq_ok h
  have hread : ∀ k ∈ l.keys, t.keyTypes[k.position]? = some k.type ∧ k.Applies := fun k hk => by
    obtain ⟨s, -, hs⟩ := exists_of_mapM_ok hkeys k hk
    exact compileKey_reads ht hs
  have hcovered := covered_of_uncovered?_eq_none huncovered
  refine ⟨by rw [hl], htable, by rw [hl, htable], fun k hk => (hread k hk).1,
    fun k hk => (hread k hk).2, ?_⟩
  rw [Table.length_keyTypes ht]
  simpa using hcovered

end Index
end Chronicle
