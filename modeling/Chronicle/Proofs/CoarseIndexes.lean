import Chronicle.Proofs.Layouts
import Mathlib.Data.Rat.Floor

/-!
# Indexes of coarsened fields

An index may order by quotients or by first characters. Both keep the order of
the values, each in its direction, so an identity whose fields lie between the
values of two bounds has its place between the places of the bounds. It is then
met by a walk from one bound to the other.
-/

namespace Chronicle

/-- A step that is not greater is followed by one that is not greater. -/
theorem isLE_then {o o' : Ordering} (h : o.isLE = true) (h' : o'.isLE = true) :
    (o.then o').isLE = true := by
  cases o with
  | lt => rfl
  | eq => exact h'
  | gt => cases h

namespace LayoutKey

variable {k : LayoutKey} {v w : Value}

/-- A component without the lowercase form keeps the order of values. -/
theorem isLE_compare_projected (hk : k.Applies) (he : k.expression ≠ some .lowercase)
    (hv : v.type = k.type) (hw : w.type = k.type) (h : (compare v w).isLE = true) :
    (compare (k.projected v) (k.projected w)).isLE = true := by
  have hprojectv := project_eq hk hv
  have hprojectw := project_eq hk hw
  rw [project] at hprojectv hprojectw
  cases hexpression : k.expression with
  | none => rwa [projected_of_plain hexpression, projected_of_plain hexpression]
  | some e =>
    rw [hexpression] at hprojectv hprojectw
    have houtput : e.outputType v.type = .ok k.type := hv ▸ hk e hexpression
    have hne : e ≠ .lowercase := fun hlower => he (hlower ▸ hexpression)
    exact Expression.isLE_compare_apply hne houtput (hv.trans hw.symm) hprojectv hprojectw h

/-- A component without the lowercase form keeps the order of values in its own
direction. -/
theorem isLE_direction_projected (hk : k.Applies) (he : k.expression ≠ some .lowercase)
    (hv : v.type = k.type) (hw : w.type = k.type)
    (h : (k.direction.apply (compare v w)).isLE = true) :
    (k.direction.apply (compare (k.projected v) (k.projected w))).isLE = true := by
  cases hdirection : k.direction with
  | asc =>
    rw [hdirection] at h
    exact isLE_compare_projected hk he hv hw h
  | desc =>
    -- A component that falls keeps the order of the values taken the other way.
    rw [hdirection] at h
    rw [Direction.apply, ← Std.OrientedCmp.eq_swap] at h ⊢
    exact isLE_compare_projected hk he hw hv h

end LayoutKey

namespace Layout

/-- Tuples that are in order at each component are in order. -/
theorem isLE_compare_projected {keys : List LayoutKey} (hk : ∀ k ∈ keys, k.Applies)
    (he : ∀ k ∈ keys, k.expression ≠ some .lowercase) {a b : Tuple}
    (ha : a.map Value.type = keys.map (·.type)) (hb : b.map Value.type = keys.map (·.type))
    (h : ∀ (p : Nat) k v w, keys[p]? = some k → a[p]? = some v → b[p]? = some w →
      (k.direction.apply (compare v w)).isLE = true) :
    ((Comparator.mk (keys.map (·.direction))).compare
      (List.zipWith LayoutKey.projected keys a)
      (List.zipWith LayoutKey.projected keys b)).isLE = true := by
  induction keys generalizing a b with
  | nil => rfl
  | cons k keys ih =>
    obtain ⟨v, a, rfl, hv, ha⟩ := List.map_eq_cons_iff.mp ha
    obtain ⟨w, b, rfl, hw, hb⟩ := List.map_eq_cons_iff.mp hb
    obtain ⟨hk, hks⟩ := List.forall_mem_cons.mp hk
    obtain ⟨he, hes⟩ := List.forall_mem_cons.mp he
    have hfirst := LayoutKey.isLE_direction_projected hk he hv hw (h 0 k v w rfl rfl rfl)
    have hrest := ih hks hes ha hb fun p => h (p + 1)
    rw [List.map_cons, List.zipWith_cons_cons, List.zipWith_cons_cons,
      Comparator.compare_cons_cons]
    exact isLE_then hfirst hrest

/-- A bound has a value for each component. -/
theorem exists_of_isBound {l : Layout} {bound : Tuple} (hbound : l.IsBound bound) {p : Nat}
    {component : LayoutKey} (hp : l.keys[p]? = some component) : ∃ v, bound[p]? = some v := by
  have htypes := congrArg (·[p]?) hbound
  simp only [List.getElem?_map, hp, Option.map_some] at htypes
  obtain ⟨v, hv, -⟩ := Option.map_eq_some_iff.mp htypes
  exact ⟨v, hv⟩

/-- The places of bounds that are in order at each component are in order. -/
theorem Reads.isLE_compare_placeOf {l : Layout} {t : Table} (hl : l.Reads t)
    (he : ∀ k ∈ l.keys, k.expression ≠ some .lowercase) {a b : Tuple} (ha : l.IsBound a)
    (hb : l.IsBound b)
    (h : ∀ (p : Nat) k v w, l.keys[p]? = some k → a[p]? = some v → b[p]? = some w →
      (k.direction.apply (compare v w)).isLE = true) :
    (compare (l.placeOf a) (l.placeOf b)).isLE = true := by
  rw [compare_placeOf]
  exact isLE_compare_projected hl.applies he ha hb h

end Layout

namespace Index

/-- Whether each field that an index sorts by lies between the values of two
bounds, in the direction of its sort key. -/
def Spans (i : Index) (t : Table) (first last identity : Tuple) : Prop :=
  ∀ (p : Nat) k a v b, i.sortKeys[p]? = some k → first[p]? = some a → last[p]? = some b →
    (t.keyIndex? k.field).bind (identity[·]?) = some v →
    (k.direction.apply (compare a v)).isLE = true ∧ (k.direction.apply (compare v b)).isLE = true

variable {i : Index} {t : Table} {l : Layout} {first last identity : Tuple}

/-- A component of a compiled index is made of the sort key at its place. -/
theorem exists_sortKey (h : i.compile t = .ok l) {p : Nat} {component : LayoutKey}
    (hp : l.keys[p]? = some component) :
    ∃ k, i.sortKeys[p]? = some k ∧ t.keyIndex? k.field = some component.position ∧
      component.expression = k.expression ∧ component.direction = k.direction := by
  obtain ⟨-, hkeys, -, -⟩ := compile_eq_ok h
  have hcompiled := congrArg (·[p]?) (map_of_mapM_ok hkeys)
  simp only [List.getElem?_map, hp, Option.map_some] at hcompiled
  obtain ⟨k, hk, hcomponent⟩ := Option.map_eq_some_iff.mp hcompiled
  obtain ⟨position, f, hposition, -, rfl, -⟩ := compileKey_eq_ok hcomponent
  exact ⟨k, hk, hposition, rfl, rfl⟩

/-- An index that spans an identity does so at each component. -/
theorem Spans.at_component (ht : t.Sound) (h : i.compile t = .ok l)
    (hspans : i.Spans t first last identity) (hid : t.IsIdentity identity)
    (hfirst : l.IsBound first) (hlast : l.IsBound last) {p : Nat} {component : LayoutKey}
    (hp : l.keys[p]? = some component) {v : Value} (hv : (l.rawBound identity)[p]? = some v) :
    (∀ a, first[p]? = some a → (component.direction.apply (compare a v)).isLE = true) ∧
      ∀ b, last[p]? = some b → (component.direction.apply (compare v b)).isLE = true := by
  obtain ⟨-, -, hreads⟩ := reads_of_compile ht h
  obtain ⟨k, hk, hposition, -, hdirection⟩ := exists_sortKey h hp
  have hraw := congrArg (·[p]?) (hreads.map_some_rawBound hid)
  simp only [List.getElem?_map, hv, hp, Option.map_some, Option.some.injEq] at hraw
  have hvalue : (t.keyIndex? k.field).bind (identity[·]?) = some v := by
    rw [hposition, Option.bind_some, ← hraw]
  obtain ⟨a, ha⟩ := Layout.exists_of_isBound hfirst hp
  obtain ⟨b, hb⟩ := Layout.exists_of_isBound hlast hp
  obtain ⟨hlower, hupper⟩ := hspans p k a v b hk ha hb hvalue
  rw [hdirection]
  constructor
  · intro a' ha'
    rw [ha] at ha'
    cases ha'
    exact hlower
  · intro b' hb'
    rw [hb] at hb'
    cases hb'
    exact hupper

/-- Key expressions are exact and keep order. A checked expression applies to the
values of its type and keeps the type. A bucket holds the floor of the rational
quotient. Quotients and first characters or bytes keep the order of values. On an
index without lowercase forms, an identity whose fields lie between the values of
two bounds has a place between the places of the bounds. -/
theorem expressions_keep_order :
    (∀ (e : Expression) (type output : ScalarType) (v w : Value),
      e.outputType type = .ok output → v.type = type → w.type = type →
        ∃ v' w', e.apply v = .ok v' ∧ e.apply w = .ok w' ∧ v'.type = type ∧ w'.type = type ∧
          (e ≠ .lowercase → (compare v w).isLE = true → (compare v' w').isLE = true)) ∧
    (∀ (n : Nat) (v : Value), 0 < n → v.type.isInteger = true →
      (Expression.bucket n).outputType v.type = .ok v.type ∧
        ∃ v', (Expression.bucket n).apply v = .ok v' ∧ v'.type = v.type ∧
          v'.number = ⌊(v.number : ℚ) / n⌋) ∧
    ∀ (t : Table) (i : Index) (l : Layout), t.validate = .ok () → i.compile t = .ok l →
      (∀ k ∈ i.sortKeys, k.expression ≠ some .lowercase) → ∀ identity first last,
        t.checkIdentity identity = .ok () → l.checkBound first = .ok () →
        l.checkBound last = .ok () → i.Spans t first last identity →
          ∃ lower place upper, l.positionOfBound first = .ok lower ∧
            l.positionOfIdentity identity = .ok place ∧ l.positionOfBound last = .ok upper ∧
            (compare lower place).isLE = true ∧ (compare place upper).isLE = true := by
  refine ⟨?_, ?_, ?_⟩
  · intro e type output v w houtput hv hw
    subst hv
    obtain ⟨v', hv', htypev⟩ := Expression.exists_apply houtput
    obtain ⟨w', hw', htypew⟩ := Expression.exists_apply (hw ▸ houtput)
    exact ⟨v', w', hv', hw', htypev, htypew.trans hw, fun hne hle =>
      Expression.isLE_compare_apply hne houtput hw.symm hv' hw' hle⟩
  · intro n v hn hinteger
    obtain ⟨v', hv', htype, hnumber⟩ := Expression.apply_bucket hn hinteger
    exact ⟨Expression.outputType_bucket hn hinteger, v', hv', htype, by
      rw [hnumber, Rat.floor_intCast_div_natCast]⟩
  · intro t i l hvalid hcompile hexpressions identity first last hid hfirst hlast hspans
    have ht := Table.validate_eq_ok.mp hvalid
    rw [Table.checkIdentity_eq_ok] at hid
    rw [Layout.checkBound_eq_ok] at hfirst hlast
    obtain ⟨-, -, hreads⟩ := reads_of_compile ht hcompile
    -- An identity has the place of the bound of its raw fields, so only places of
    -- bounds are compared.
    have hraw := hreads.isBound_rawBound hid
    have hcoarse : ∀ component ∈ l.keys, component.expression ≠ some .lowercase := by
      intro component hcomponent
      obtain ⟨p, hp⟩ := List.mem_iff_getElem?.mp hcomponent
      obtain ⟨k, hk, -, hexpression, -⟩ := exists_sortKey hcompile hp
      rw [hexpression]
      exact hexpressions k (List.mem_of_getElem? hk)
    refine ⟨_, _, _, hreads.positionOfBound_eq hfirst, hreads.positionOfIdentity_eq hid,
      hreads.positionOfBound_eq hlast, ?_, ?_⟩
    · exact hreads.isLE_compare_placeOf hcoarse hfirst hraw fun p component a v hp ha hv =>
        (hspans.at_component ht hcompile hid hfirst hlast hp hv).1 a ha
    · exact hreads.isLE_compare_placeOf hcoarse hraw hlast fun p component v b hp hv hb =>
        (hspans.at_component ht hcompile hid hfirst hlast hp hv).2 b hb

/-- The smallest time falls into the bucket below zero of the largest divisor.
Events are sorted by the bucket of their time, the latest first, then by the
first character of their name. An event before zero whose name starts with a
character of two bytes lies between two bounds. -/
theorem sample_expressions_keep_order :
    let l : Layout := ⟨"recent", "event", [⟨"time", 0, .timestamp, some (.bucket 10), .desc⟩,
      ⟨"name", 1, .string, some (.truncate 1), .asc⟩, ⟨"time", 0, .timestamp, none, .desc⟩,
      ⟨"name", 1, .string, none, .asc⟩]⟩
    let bound (time : Int64) (name : String) : Tuple :=
      [.timestamp time, .string name, .timestamp time, .string name]
    (∃ v, (Expression.bucket 18446744073709551615).apply (.timestamp Int64.minValue) = .ok v ∧
      v.number = ⌊((-9223372036854775808 : ℤ) : ℚ) / (18446744073709551615 : ℕ)⌋) ∧
      (∃ v w, (Expression.truncate 1).apply (.string "ab") = .ok v ∧
        (Expression.truncate 1).apply (.string "éa") = .ok w ∧
        (compare v w).isLE = true) ∧
      ∃ lower place upper, l.positionOfBound (bound 3 "a") = .ok lower ∧
        l.positionOfIdentity [.timestamp (-5), .string "éa"] = .ok place ∧
        l.positionOfBound (bound (-20) "éb") = .ok upper ∧
        (compare lower place).isLE = true ∧ (compare place upper).isLE = true := by
  intro l bound
  let t : Table := ⟨"event", [⟨"time", .timestamp⟩, ⟨"name", .string⟩], ["time", "name"]⟩
  let i : Index := ⟨"recent", "event", [(SortKey.desc "time").withExpression (.bucket 10),
    (SortKey.asc "name").withExpression (.truncate 1), .desc "time", .asc "name"]⟩
  have hcompile : i.compile t = .ok l := eq_ok_of_toOption (by decide +kernel)
  have hspans : i.Spans t (bound 3 "a") (bound (-20) "éb")
      [.timestamp (-5), .string "éa"] := by
    intro p k a v b hk ha hb hv
    match p with
    | 0 | 1 | 2 | 3 =>
      cases hk
      cases ha
      cases hb
      cases hv
      decide +kernel
    | _ + 4 => cases hk
  obtain ⟨hkeep, hfloor, hplaces⟩ := expressions_keep_order
  obtain ⟨-, v, hv, -, hnumber⟩ :=
    hfloor 18446744073709551615 (.timestamp Int64.minValue) (by decide) rfl
  obtain ⟨v', w', hv', hw', -, -, hle⟩ :=
    hkeep (.truncate 1) .string .string (.string "ab") (.string "éa") rfl rfl rfl
  exact ⟨⟨v, hv, hnumber⟩, ⟨v', w', hv', hw', hle (by decide) (by decide +kernel)⟩,
    hplaces t i l rfl hcompile (by decide +kernel) _ _ _ rfl rfl rfl hspans⟩

end Index
end Chronicle
