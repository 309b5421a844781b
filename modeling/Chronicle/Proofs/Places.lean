import Chronicle.Proofs.Layouts

/-!
# Places of identities and bounds

The place of an identity is that of the bound that names it, belongs to that
identity alone, and lies among the places of all bounds as its projected tuple
lies among theirs. Nothing here depends on what the lowercase form of a text is,
so places are told for any function that lowercases texts. An index uses one of
them.
-/

namespace Chronicle

variable {lower : String → String}

namespace Expression

/-- The projected value, where texts are lowercased by a given function. -/
def applyBy (lower : String → String) (e : Expression) (v : Value) : Except Error Value :=
  match e, v with
  | lowercase, .string s => .ok (.string (lower s))
  | e, v => e.apply v

@[simp] theorem applyBy_lowercase (e : Expression) (v : Value) :
    e.applyBy Text.lowercase v = e.apply v := by
  cases e <;> cases v <;> rfl

/-- A checked expression applies to every value of the type, however texts are
lowercased. -/
theorem exists_applyBy (lower : String → String) {e : Expression} {v : Value}
    {output : ScalarType} (h : e.outputType v.type = .ok output) :
    ∃ w, e.applyBy lower v = .ok w := by
  cases e with
  | lowercase =>
    cases v <;> simp [outputType, Value.type] at h
    exact ⟨_, rfl⟩
  | truncate n =>
    obtain ⟨w, hw, -⟩ := exists_apply h
    exact ⟨w, hw⟩
  | bucket n =>
    obtain ⟨w, hw, -⟩ := exists_apply h
    exact ⟨w, hw⟩

end Expression

namespace LayoutKey

/-- A field's value in the order of a component. -/
def projectBy (lower : String → String) (k : LayoutKey) (v : Value) : Except Error Value :=
  match k.expression with
  | some e => e.applyBy lower v
  | none => .ok v

/-- The value in the order of a component, for a value of its type. -/
def projectedBy (lower : String → String) (k : LayoutKey) (v : Value) : Value :=
  match k.projectBy lower v with
  | .ok w => w
  | .error _ => v

@[simp] theorem projectBy_lowercase (k : LayoutKey) (v : Value) :
    k.projectBy Text.lowercase v = k.project v := by
  rw [projectBy, project]
  cases k.expression with
  | none => rfl
  | some e => exact e.applyBy_lowercase v

theorem projectBy_eq {k : LayoutKey} {v : Value} (hk : k.Applies) (hv : v.type = k.type) :
    k.projectBy lower v = .ok (k.projectedBy lower v) := by
  cases he : k.expression with
  | none => simp [projectedBy, projectBy, he]
  | some e =>
    have ho : e.outputType v.type = .ok k.type := hv ▸ hk e he
    obtain ⟨w, hw⟩ := Expression.exists_applyBy lower ho
    simp [projectedBy, projectBy, he, hw]

theorem projectedBy_of_plain {k : LayoutKey} (h : k.expression = none) (v : Value) :
    k.projectedBy lower v = v := by
  simp [projectedBy, projectBy, h]

end LayoutKey

namespace Layout

/-- Project a tuple shaped like a bound. -/
def projectBy (lower : String → String) (l : Layout) (raw : Tuple) : Except Error Tuple :=
  (l.keys.zip raw).mapM fun e => e.1.projectBy lower e.2

/-- The place of a bound in the index. -/
def positionOfBoundBy (lower : String → String) (l : Layout) (bound : Tuple) :
    Except Error Bytes := do
  l.checkBound bound
  return l.encode (← l.projectBy lower bound)

/-- The place of an identity in the index. -/
def positionOfIdentityBy (lower : String → String) (l : Layout) (identity : Tuple) :
    Except Error Bytes := do
  return l.encode (← l.projectBy lower (← l.boundOf identity))

theorem mapM_projectBy_lowercase (keys : List LayoutKey) (raw : Tuple) :
    ((keys.zip raw).mapM fun e => e.1.projectBy Text.lowercase e.2) = projectKeys keys raw := by
  induction keys generalizing raw with
  | nil => cases raw <;> rfl
  | cons k keys ih =>
    cases raw with
    | nil => rfl
    | cons v raw =>
      rw [List.zip_cons_cons, List.mapM_cons, ih, projectKeys, LayoutKey.projectBy_lowercase]

@[simp] theorem projectBy_lowercase (l : Layout) : l.projectBy Text.lowercase = l.project :=
  funext fun raw => mapM_projectBy_lowercase l.keys raw

@[simp] theorem positionOfBoundBy_lowercase (l : Layout) :
    l.positionOfBoundBy Text.lowercase = l.positionOfBound :=
  funext fun bound => by rw [positionOfBoundBy, positionOfBound, projectBy_lowercase]

@[simp] theorem positionOfIdentityBy_lowercase (l : Layout) :
    l.positionOfIdentityBy Text.lowercase = l.positionOfIdentity :=
  funext fun identity => by rw [positionOfIdentityBy, positionOfIdentity, projectBy_lowercase]

/-- The values of a bound in the order of the components. -/
def projectedBy (lower : String → String) (l : Layout) (bound : Tuple) : Tuple :=
  List.zipWith (LayoutKey.projectedBy lower) l.keys bound

/-- The values of a bound have the types of their components. -/
theorem type_eq_of_mem_zip {keys : List LayoutKey} {bound : Tuple}
    (h : bound.map Value.type = keys.map (·.type)) {k : LayoutKey} {v : Value}
    (hmem : (k, v) ∈ keys.zip bound) : v.type = k.type := by
  induction keys generalizing bound with
  | nil => simp at hmem
  | cons first keys ih =>
    cases bound with
    | nil => simp at hmem
    | cons w bound =>
      rw [List.map_cons, List.map_cons, List.cons.injEq] at h
      rw [List.zip_cons_cons] at hmem
      rcases List.mem_cons.mp hmem with heq | hmem
      · cases heq
        exact h.1
      · exact ih h.2 hmem

section Reading

variable {l : Layout} {t : Table} {i j bound : Tuple}

theorem Reads.projectBy_eq (hl : l.Reads t) (hb : l.IsBound bound) :
    l.projectBy lower bound = .ok (l.projectedBy lower bound) := by
  have heach : ∀ e ∈ l.keys.zip bound,
      e.1.projectBy lower e.2 = .ok (e.1.projectedBy lower e.2) := fun e hmem =>
    LayoutKey.projectBy_eq (hl.applies e.1 (List.of_mem_zip hmem).1) (type_eq_of_mem_zip hb hmem)
  rw [projectBy, mapM_ok heach, projectedBy, ← List.map_uncurry_zip_eq_zipWith]
  rfl

/-- Every bound has a place. -/
theorem Reads.positionOfBoundBy_eq (hl : l.Reads t) (hb : l.IsBound bound) :
    l.positionOfBoundBy lower bound = .ok (l.encode (l.projectedBy lower bound)) := by
  rw [positionOfBoundBy, checkBound_eq_ok.mpr hb, hl.projectBy_eq hb]
  rfl

/-- Every identity has a place. -/
theorem Reads.positionOfIdentityBy_eq (hl : l.Reads t) (hi : t.IsIdentity i) :
    l.positionOfIdentityBy lower i = .ok (l.encode (l.projectedBy lower (l.rawBound i))) := by
  rw [positionOfIdentityBy, hl.boundOf_eq hi]
  exact congrArg (· >>= fun p => pure (l.encode p)) (hl.projectBy_eq (hl.isBound_rawBound hi))

/-- A place belongs to one identity. -/
theorem Reads.encode_projectedBy_inj (hl : l.Reads t) (hi : t.IsIdentity i)
    (hj : t.IsIdentity j) :
    l.encode (l.projectedBy lower (l.rawBound i)) = l.encode (l.projectedBy lower (l.rawBound j)) ↔
      i = j := by
  refine ⟨fun h => ?_, fun h => h ▸ rfl⟩
  exact hl.eq_of_projected_eq hi hj LayoutKey.projectedBy_of_plain (Key.ofTuple_inj.mp h)

end Reading

/-- Places name identities. With a layout that was compiled for a table, however
texts are lowercased, an identity of the table has a place, which is that of its
bound and of no other identity. Every bound has a place too, and the places of
a bound and an identity are ordered like their projected tuples. -/
theorem places_name_identities (lower : String → String) {t : Table} {index : Index} {l : Layout}
    (ht : t.validate = .ok ()) (hl : index.compile t = .ok l) {i j bound : Tuple}
    (hi : t.checkIdentity i = .ok ()) (hj : t.checkIdentity j = .ok ())
    (hbound : l.checkBound bound = .ok ()) :
    (l.projectBy Text.lowercase = l.project ∧
        l.positionOfBoundBy Text.lowercase = l.positionOfBound ∧
        l.positionOfIdentityBy Text.lowercase = l.positionOfIdentity) ∧
      ∃ raw place, l.boundOf i = .ok raw ∧ l.checkBound raw = .ok () ∧
        l.positionOfIdentityBy lower i = .ok place ∧ l.positionOfBoundBy lower raw = .ok place ∧
        (l.positionOfIdentityBy lower j = .ok place ↔ j = i) ∧
        ∃ other x y, l.positionOfBoundBy lower bound = .ok other ∧
          l.projectBy lower bound = .ok x ∧ l.projectBy lower raw = .ok y ∧
          compare other place = l.comparator.compare x y := by
  rw [Table.checkIdentity_eq_ok] at hi hj
  rw [checkBound_eq_ok] at hbound
  obtain ⟨-, -, hreads⟩ := Index.reads_of_compile (Table.validate_eq_ok.mp ht) hl
  have hraw := hreads.isBound_rawBound hi
  refine ⟨⟨projectBy_lowercase l, positionOfBoundBy_lowercase l, positionOfIdentityBy_lowercase l⟩,
    l.rawBound i, _, hreads.boundOf_eq hi, checkBound_eq_ok.mpr hraw,
    hreads.positionOfIdentityBy_eq hi, hreads.positionOfBoundBy_eq hraw, ?_, _, _, _,
    hreads.positionOfBoundBy_eq hbound, hreads.projectBy_eq hbound, hreads.projectBy_eq hraw,
    Key.compare_ofTuple l.directions _ _⟩
  rw [hreads.positionOfIdentityBy_eq hj, Except.ok.injEq]
  exact hreads.encode_projectedBy_inj hj hi

/-- Two identities that the expressions of an index do not tell apart, a name in
two spellings with numbers of one bucket below zero, have different places. The
bound of one of them has its place, and a bound of a later bucket comes before
it, because the buckets descend. -/
theorem sample_places_name_identities :
    let t : Table := ⟨"entry", [⟨"name", .string⟩, ⟨"note", .bool⟩, ⟨"count", .int32⟩],
      ["count", "name"]⟩
    let index : Index := ⟨"by_name", "entry", [⟨"name", .asc, some .lowercase⟩,
      ⟨"count", .desc, some (.bucket 10)⟩, ⟨"name", .desc, none⟩, ⟨"count", .asc, none⟩]⟩
    let l : Layout := ⟨"by_name", "entry", [⟨"name", 1, .string, some .lowercase, .asc⟩,
      ⟨"count", 0, .int32, some (.bucket 10), .desc⟩, ⟨"name", 1, .string, none, .desc⟩,
      ⟨"count", 0, .int32, none, .asc⟩]⟩
    let i : Tuple := [.int32 (-7), .string "Ab"]
    let j : Tuple := [.int32 (-3), .string "ab"]
    let raw : Tuple := [.string "Ab", .int32 (-7), .string "Ab", .int32 (-7)]
    let bound : Tuple := [.string "AB", .int32 9, .string "", .int32 0]
    t.validate = .ok () ∧ index.compile t = .ok l ∧ t.checkIdentity i = .ok () ∧
      t.checkIdentity j = .ok () ∧ l.checkBound bound = .ok () ∧ l.boundOf i = .ok raw ∧
      ∃ place other, l.positionOfIdentity i = .ok place ∧ l.positionOfBound raw = .ok place ∧
        l.positionOfIdentity j ≠ .ok place ∧ l.positionOfBound bound = .ok other ∧
        compare other place = .lt := by
  intro t index l i j raw bound
  have ht : t.validate = .ok () := eq_ok_of_toOption (by decide +kernel)
  have hl : index.compile t = .ok l := eq_ok_of_toOption (by decide +kernel)
  have hi : t.checkIdentity i = .ok () := rfl
  have hj : t.checkIdentity j = .ok () := rfl
  have hbound : l.checkBound bound = .ok () := rfl
  obtain ⟨⟨hproject, hposition, hidentity⟩, raw', place, hraw, -, hplace, hsame, hother, other, x,
    y, hotherPlace, hx, hy, horder⟩ := places_name_identities Text.lowercase ht hl hi hj hbound
  rw [hidentity] at hplace hother
  rw [hposition] at hsame hotherPlace
  rw [hproject] at hx hy
  have hraw₀ : l.boundOf i = .ok raw := rfl
  obtain rfl : raw = raw' := Except.ok.inj (hraw₀.symm.trans hraw)
  have hx₀ : l.project bound = .ok [.string "ab", .int32 0, .string "", .int32 0] :=
    eq_ok_of_toOption (by decide +kernel)
  have hy₀ : l.project raw = .ok [.string "ab", .int32 (-1), .string "Ab", .int32 (-7)] :=
    eq_ok_of_toOption (by decide +kernel)
  obtain rfl := Except.ok.inj (hx₀.symm.trans hx)
  obtain rfl := Except.ok.inj (hy₀.symm.trans hy)
  refine ⟨ht, hl, hi, hj, hbound, hraw, place, other, hplace, hsame,
    fun h => absurd (hother.mp h) (by decide), hotherPlace, horder.trans (by decide +kernel)⟩

end Layout
end Chronicle
