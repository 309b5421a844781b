import Chronicle.Proofs.KeyOrder

/-!
# Tuples are totally ordered

A rule that orders the elements at each position orders them in either direction
too, because a direction swaps all outcomes or none. So the comparison of whole
tuples is an order, with fewer or more directions than fields, with fields of
any types, and with tuples of any lengths. In an order it is enough to look at
neighbours to know that a list ascends.
-/

namespace Chronicle

/-- An order of elements is one in either direction. -/
instance Direction.transCmp_apply {α : Type u} {rule : α → α → Ordering} [Std.TransCmp rule]
    (d : Direction) : Std.TransCmp fun x y => d.apply (rule x y) := by
  cases d with
  | asc => exact inferInstanceAs (Std.TransCmp rule)
  | desc =>
    have hflip : (fun x y => desc.apply (rule x y)) = fun x y => rule y x :=
      funext fun x => funext fun y => (Std.OrientedCmp.eq_swap (a := y) (b := x)).symm
    rw [hflip]
    exact Std.TransCmp.opposite

namespace Comparator

variable {α : Type u} {β : Type v} {rule : Nat → α → α → Ordering}

/-- Swapped tuples have the swapped outcome. -/
theorem compareFrom_swap [∀ p, Std.TransCmp (rule p)] (position : Nat)
    (directions : List Direction) (a b : List α) :
    compareFrom rule position directions a b =
      (compareFrom rule position directions b a).swap := by
  induction a generalizing b position directions with
  | nil => cases b <;> rfl
  | cons x a ih =>
    cases b with
    | nil => rfl
    | cons y b =>
      have order : Std.TransCmp fun x y => (directions.headD .asc).apply (rule position x y) :=
        inferInstance
      rw [compareFrom, compareFrom, Ordering.swap_then, ← ih, order.eq_swap (a := x) (b := y)]

/-- What comes before a tuple comes before all that are not before that tuple.
The fields that decide two comparisons decide the third. -/
theorem isLE_compareFrom_trans [∀ p, Std.TransCmp (rule p)] {position : Nat}
    {directions : List Direction} {a b c : List α}
    (hab : (compareFrom rule position directions a b).isLE = true)
    (hbc : (compareFrom rule position directions b c).isLE = true) :
    (compareFrom rule position directions a c).isLE = true := by
  induction a generalizing b c position directions with
  | nil => cases c <;> rfl
  | cons x a ih =>
    cases b with
    | nil => cases hab
    | cons y b =>
      cases c with
      | nil => cases hbc
      | cons z c =>
        rw [compareFrom, Ordering.isLE_then_iff_or] at hab hbc ⊢
        have order : Std.TransCmp fun x y => (directions.headD .asc).apply (rule position x y) :=
          inferInstance
        obtain hxy | ⟨hxy, hab⟩ := hab
        · obtain hyz | ⟨hyz, -⟩ := hbc
          · exact .inl (order.lt_trans hxy hyz)
          · exact .inl (order.lt_of_lt_of_eq hxy hyz)
        · obtain hyz | ⟨hyz, hbc⟩ := hbc
          · exact .inl (order.lt_of_eq_of_lt hxy hyz)
          · exact .inr ⟨order.eq_trans hxy hyz, ih hab hbc⟩

/-- A rule that orders the elements at each position orders tuples. -/
instance [∀ p, Std.TransCmp (rule p)] (position : Nat) (directions : List Direction) :
    Std.TransCmp (compareFrom rule position directions) where
  eq_swap := compareFrom_swap position directions _ _
  isLE_trans := isLE_compareFrom_trans

/-- The order of elements orders tuples. -/
instance [Ord α] [Std.TransOrd α] (c : Comparator) : Std.TransCmp (c.compare (α := α)) :=
  inferInstanceAs (Std.TransCmp (compareFrom (fun _ x y => Ord.compare x y) 0 c.directions))

/-- A projection at each position orders elements by what they are projected to. -/
instance [Ord β] [Std.TransOrd β] (c : Comparator) (project : Nat → α → β) :
    Std.TransCmp (c.compareBy project) :=
  have (position : Nat) : Std.TransCmp fun x y : α =>
      Ord.compare (project position x) (project position y) :=
    inferInstanceAs (Std.TransCmp (compareOn (project position)))
  inferInstanceAs (Std.TransCmp (compareFrom
    (fun position x y => Ord.compare (project position x) (project position y)) 0 c.directions))

/-- To compare by a projection from a position on is to compare what the
elements from there on are projected to. -/
theorem compareFrom_project [Ord β] (project : Nat → α → β) (position : Nat)
    (directions : List Direction) (a b : List α) :
    compareFrom (fun p x y => Ord.compare (project p x) (project p y)) position directions a b =
      compareFrom (fun _ x y => Ord.compare x y) position directions
        (a.mapIdx fun p => project (position + p)) (b.mapIdx fun p => project (position + p)) := by
  induction a generalizing b position directions with
  | nil => cases b <;> simp [compareFrom]
  | cons x a ih =>
    cases b with
    | nil => simp [compareFrom]
    | cons y b =>
      rw [compareFrom, ih, List.mapIdx_cons, List.mapIdx_cons, compareFrom]
      simp only [Nat.add_zero, Nat.add_assoc, Nat.add_comm 1]

/-- To compare by a projection is to compare the projected tuples. -/
theorem compareBy_eq [Ord β] (c : Comparator) (project : Nat → α → β) (a b : List α) :
    c.compareBy project a b = c.compare (a.mapIdx project) (b.mapIdx project) := by
  rw [compareBy, compare, compareFrom_project]
  simp only [Nat.zero_add]

/-- Tuples of which each is smaller than its successor are smaller than all
that follow. -/
theorem isStrictlyAscending_iff [Ord α] [Std.TransOrd α] (c : Comparator) (l : List (List α)) :
    c.isStrictlyAscending l = true ↔ l.Pairwise fun a b => c.compare a b = .lt := by
  induction l with
  | nil => simp [isStrictlyAscending]
  | cons a rest ih =>
    cases rest with
    | nil => simp [isStrictlyAscending]
    | cons b rest =>
      rw [isStrictlyAscending, Bool.and_eq_true, beq_iff_eq, ih]
      constructor
      · rintro ⟨hab, hrest⟩
        refine List.pairwise_cons.mpr ⟨fun d hd => ?_, hrest⟩
        rcases List.mem_cons.mp hd with rfl | hd
        · exact hab
        · exact Std.TransCmp.lt_trans hab ((List.pairwise_cons.mp hrest).1 d hd)
      · intro h
        obtain ⟨hhead, hrest⟩ := List.pairwise_cons.mp h
        exact ⟨hhead b (List.mem_cons_self ..), hrest⟩

/-- Whatever its directions, a comparator orders all tuples of values totally,
and only equal tuples compare as equal. By a projection it orders them as what
they are projected to, which need not tell them apart. A list of tuples passes
the check of its neighbours exactly if each tuple is smaller than all later
ones. -/
theorem compare_orders_tuples (c : Comparator) :
    (∀ a b : Tuple, c.compare a b = .eq ↔ a = b) ∧
    (∀ a b : Tuple, c.compare b a = (c.compare a b).swap) ∧
    (∀ a b d : Tuple, (c.compare a b).isLE → (c.compare b d).isLE → (c.compare a d).isLE) ∧
    (∀ (β : Type u) [Ord β] [Std.TransOrd β] (project : Nat → Value → β),
      (∀ a b, c.compareBy project a b = c.compare (a.mapIdx project) (b.mapIdx project)) ∧
      (∀ a, c.compareBy project a a = .eq) ∧
      (∀ a b, c.compareBy project b a = (c.compareBy project a b).swap) ∧
      ∀ a b d, (c.compareBy project a b).isLE → (c.compareBy project b d).isLE →
        (c.compareBy project a d).isLE) ∧
    ∀ ts : List Tuple, c.isStrictlyAscending ts = true ↔
      ∀ (i j : Nat) (hij : i < j) (hj : j < ts.length), c.compare ts[i] ts[j] = .lt := by
  refine ⟨fun a b => ?_, fun a b => Std.OrientedCmp.eq_swap,
    fun a b d => Std.TransCmp.isLE_trans, fun β _ _ project => ?_, fun ts => ?_⟩
  · constructor
    · exact eq_of_compare
    · rintro rfl
      exact Std.ReflCmp.compare_self
  · exact ⟨c.compareBy_eq project, fun a => Std.ReflCmp.compare_self,
      fun a b => Std.OrientedCmp.eq_swap, fun a b d => Std.TransCmp.isLE_trans⟩
  · rw [isStrictlyAscending_iff, List.pairwise_iff_getElem]
    exact ⟨fun h i j hij hj => h i j (Nat.lt_trans hij hj) hj hij,
      fun h i j _ hj hij => h i j hij hj⟩

/-- The first field descends. Texts therefore come before integers, a tuple of
one field before those that go on with NaN, and by the types alone the first two
tuples are not told apart. -/
theorem sample_compare_orders_tuples :
    let c : Comparator := ⟨[.desc]⟩
    let nan : Value := .float64 ⟨0x7FF8000000000000⟩
    let ts : List Tuple := [[.string "b"], [.string "a"], [.string "a", nan], [.int32 7, nan]]
    let rank (position : Nat) (v : Value) : Nat := if position = 0 then v.type.rank else 0
    c.isStrictlyAscending ts = true ∧ c.compare ts[0] ts[3] = .lt ∧
      c.compare ts[3] ts[0] = .gt ∧ c.compare ts[2] ts[2] = .eq ∧
      (c.compare ts[0] ts[2]).isLE = true ∧
      c.compareBy rank ts[0] ts[1] = .eq ∧ (c.compareBy rank ts[1] ts[2]).isLE = true ∧
      (c.compareBy rank ts[0] ts[2]).isLE = true := by
  intro c nan ts rank
  obtain ⟨heq, hswap, htrans, hproject, hascending⟩ := compare_orders_tuples.{0} c
  obtain ⟨-, -, -, hrank⟩ := hproject Nat rank
  have hchecked : c.isStrictlyAscending ts = true := by decide
  have hfirst : c.compare ts[0] ts[3] = .lt :=
    (hascending ts).mp hchecked 0 3 (by decide) (by decide)
  have hsame : c.compareBy rank ts[0] ts[1] = .eq := by decide
  have hprefix : (c.compareBy rank ts[1] ts[2]).isLE = true := by decide
  exact ⟨hchecked, hfirst, by rw [hswap, hfirst]; rfl, (heq _ _).mpr rfl,
    htrans ts[0] ts[1] ts[2] (by decide) (by decide), hsame, hprefix,
    hrank _ _ _ (by rw [hsame]; rfl) hprefix⟩

end Comparator
end Chronicle
