/-!
# Ordered finite maps

A map is the list of its bindings in strictly ascending key order. The order
is part of the type, so two maps that answer every lookup alike are equal,
whatever history of insertions built them.
-/

namespace Chronicle

/-- Bindings listed in strictly ascending key order. -/
structure SortedMap (κ : Type u) (α : Type v) [Ord κ] where
  /-- The bindings, smallest key first. -/
  entries : List (κ × α)
  /-- Each key is smaller than all keys after it. -/
  ascending : entries.Pairwise fun a b => compare a.1 b.1 = .lt
  deriving DecidableEq

namespace SortedMap

variable {κ : Type u} {α : Type v} [Ord κ]

/-- The map without bindings. -/
def empty : SortedMap κ α := ⟨[], .nil⟩

instance : Inhabited (SortedMap κ α) := ⟨empty⟩

instance : EmptyCollection (SortedMap κ α) := ⟨empty⟩

/-- The number of bindings. -/
def size (m : SortedMap κ α) : Nat := m.entries.length

/-- Whether the map has no bindings. -/
def isEmpty (m : SortedMap κ α) : Bool := m.entries.isEmpty

/-- The keys, smallest first. -/
def keys (m : SortedMap κ α) : List κ := m.entries.map (·.1)

/-- The values, in the order of their keys. -/
def values (m : SortedMap κ α) : List α := m.entries.map (·.2)

/-- The first binding of a key in a list of bindings. -/
def find (k : κ) : List (κ × α) → Option α
  | [] => none
  | e :: rest => if compare k e.1 = .eq then some e.2 else find k rest

/-- The value bound to a key. -/
def get? (m : SortedMap κ α) (k : κ) : Option α := find k m.entries

/-- Whether a key is bound. -/
def contains (m : SortedMap κ α) (k : κ) : Bool := (m.get? k).isSome

@[simp] theorem get?_empty (k : κ) : (empty : SortedMap κ α).get? k = none := rfl

theorem isEmpty_iff {m : SortedMap κ α} : m.isEmpty ↔ ∀ e, e ∉ m.entries := by
  rw [isEmpty, List.isEmpty_iff, List.eq_nil_iff_forall_not_mem]

/-- Place a binding in an ascending list, replacing one of the same key. -/
def place (k : κ) (v : α) : List (κ × α) → List (κ × α)
  | [] => [(k, v)]
  | e :: rest =>
    match compare k e.1 with
    | .lt => (k, v) :: e :: rest
    | .eq => (k, v) :: rest
    | .gt => e :: place k v rest

theorem mem_place {k : κ} {v : α} {l : List (κ × α)} {e : κ × α} (h : e ∈ place k v l) :
    e = (k, v) ∨ e ∈ l := by
  induction l with
  | nil => simpa [place] using h
  | cons a rest ih =>
    rw [place] at h
    split at h
    · simpa using h
    · rcases List.mem_cons.mp h with rfl | h
      · exact .inl rfl
      · exact .inr (List.mem_cons_of_mem _ h)
    · rcases List.mem_cons.mp h with rfl | h
      · exact .inr (List.mem_cons_self ..)
      · exact (ih h).imp_right (List.mem_cons_of_mem _)

/-- One end of a range of keys. -/
inductive Endpoint (κ : Type u) where
  /-- The range starts or stops at this key, and holds it. -/
  | including (key : κ)
  /-- The range starts or stops at this key, without it. -/
  | excluding (key : κ)
  deriving Repr, DecidableEq

/-- Whether a key is not below the range that starts here. -/
def Endpoint.admitsAbove : Endpoint κ → κ → Bool
  | .including k, x => (compare k x).isLE
  | .excluding k, x => compare k x == .lt

/-- Whether a key is not above the range that stops here. -/
def Endpoint.admitsBelow : Endpoint κ → κ → Bool
  | .including k, x => (compare x k).isLE
  | .excluding k, x => compare x k == .lt

/-- The bindings between two ends, in key order. -/
def between (m : SortedMap κ α) (lower upper : Endpoint κ) : List (κ × α) :=
  m.entries.filter fun e => lower.admitsAbove e.1 && upper.admitsBelow e.1

/-- A range of an ascending map ascends. -/
theorem pairwise_between (m : SortedMap κ α) (lower upper : Endpoint κ) :
    (m.between lower upper).Pairwise fun a b => compare a.1 b.1 = .lt :=
  m.ascending.filter _

theorem mem_between {m : SortedMap κ α} {lower upper : Endpoint κ} {e : κ × α} :
    e ∈ m.between lower upper ↔
      e ∈ m.entries ∧ lower.admitsAbove e.1 = true ∧ upper.admitsBelow e.1 = true := by
  rw [between, List.mem_filter, Bool.and_eq_true]

/-- What is left of a range after its first binding is the range that starts
behind that binding. -/
theorem between_tail [Std.TransOrd κ] {m : SortedMap κ α} {lower upper : Endpoint κ} {e : κ × α}
    {rest : List (κ × α)} (h : m.between lower upper = e :: rest) :
    m.between (.excluding e.1) upper = rest := by
  obtain ⟨before, after, hm, hb, he, hrest⟩ := List.filter_eq_cons_iff.mp h
  have hasc := m.ascending
  rw [hm, List.pairwise_append] at hasc
  obtain ⟨_, hcons, hcross⟩ := hasc
  have hafter := (List.pairwise_cons.mp hcons).1
  have hbefore : before.filter (fun x => (Endpoint.excluding e.1).admitsAbove x.1 &&
      upper.admitsBelow x.1) = [] := by
    refine List.filter_eq_nil_iff.mpr fun x hx => ?_
    have := Std.OrientedCmp.gt_of_lt (hcross x hx e (List.mem_cons_self ..))
    simp [Endpoint.admitsAbove, this]
  have hlower : ∀ x ∈ after, lower.admitsAbove x.1 = true := fun x hx => by
    have hlt := hafter x hx
    have hle : lower.admitsAbove e.1 = true := by
      simp only [Bool.and_eq_true] at he
      exact he.1
    cases lower with
    | including k => exact (Std.TransCmp.isLE_trans hle (by simp [hlt]))
    | excluding k =>
      simp only [Endpoint.admitsAbove, beq_iff_eq] at hle ⊢
      exact Std.TransCmp.lt_trans hle hlt
  rw [between, hm, List.filter_append, hbefore, List.nil_append, List.filter_cons,
    if_neg (by simp [Endpoint.admitsAbove]), ← hrest]
  refine List.filter_congr fun x hx => ?_
  rw [hlower x hx]
  simp [Endpoint.admitsAbove, hafter x hx]

section Lawful

variable [Std.LawfulEqOrd κ]

theorem mem_of_find {k : κ} {v : α} {l : List (κ × α)} (h : find k l = some v) :
    (k, v) ∈ l := by
  induction l with
  | nil => simp [find] at h
  | cons a rest ih =>
    rw [find] at h
    split at h
    · rename_i hk
      rw [Std.LawfulEqCmp.eq_of_compare hk]
      simp at h
      simp [← h]
    · exact List.mem_cons_of_mem _ (ih h)

theorem find_place (k x : κ) (v : α) (l : List (κ × α)) :
    find x (place k v l) = if compare x k = .eq then some v else find x l := by
  induction l with
  | nil => rfl
  | cons a rest ih =>
    rw [place]
    split
    · rfl
    · rename_i hk
      have hk := Std.LawfulEqCmp.eq_of_compare hk
      by_cases hx : compare x k = .eq <;> simp [find, hx, ← hk]
    · rename_i hk
      by_cases hx : compare x k = .eq
      · have hx' := Std.LawfulEqCmp.eq_of_compare hx
        subst hx'
        simp [find, hk, ih]
      · simp [find, hx, ih]

theorem length_place {k : κ} {v : α} {l : List (κ × α)} (h : ∀ e ∈ l, e.1 ≠ k) :
    (place k v l).length = l.length + 1 := by
  induction l with
  | nil => rfl
  | cons a rest ih =>
    rw [List.forall_mem_cons] at h
    rw [place]
    split
    · rfl
    · rename_i hk
      exact absurd (Std.LawfulEqOrd.eq_of_compare hk).symm h.1
    · rw [List.length_cons, ih h.2, List.length_cons]

end Lawful

variable [Std.TransOrd κ] [Std.LawfulEqOrd κ]

theorem pairwise_place (k : κ) (v : α) {l : List (κ × α)}
    (h : l.Pairwise fun a b => compare a.1 b.1 = .lt) :
    (place k v l).Pairwise fun a b => compare a.1 b.1 = .lt := by
  induction l with
  | nil => simp [place]
  | cons a rest ih =>
    obtain ⟨ha, hr⟩ := List.pairwise_cons.mp h
    rw [place]
    split
    · rename_i hk
      refine List.pairwise_cons.mpr ⟨fun b hb => ?_, h⟩
      rcases List.mem_cons.mp hb with rfl | hb
      · exact hk
      · exact Std.TransCmp.lt_trans hk (ha b hb)
    · rename_i hk
      refine List.pairwise_cons.mpr ⟨fun b hb => ?_, hr⟩
      rw [Std.LawfulEqCmp.eq_of_compare hk]
      exact ha b hb
    · rename_i hk
      refine List.pairwise_cons.mpr ⟨fun b hb => ?_, ih hr⟩
      rcases mem_place hb with rfl | hb
      · exact Std.OrientedCmp.lt_of_gt hk
      · exact ha b hb

/-- Bind a key, replacing its earlier value. -/
def insert (m : SortedMap κ α) (k : κ) (v : α) : SortedMap κ α :=
  ⟨place k v m.entries, pairwise_place k v m.ascending⟩

/-- The map of a list of bindings, a later one replacing an earlier one. -/
def ofList (l : List (κ × α)) : SortedMap κ α :=
  l.foldl (fun m e => m.insert e.1 e.2) empty

/-- After a binding, its key is bound to the new value and no other key has
changed. -/
theorem get?_insert (m : SortedMap κ α) (k x : κ) (v : α) :
    (m.insert k v).get? x = if compare x k = .eq then some v else m.get? x :=
  find_place k x v m.entries

theorem find_of_mem {k : κ} {v : α} {l : List (κ × α)}
    (hl : l.Pairwise fun a b => compare a.1 b.1 = .lt) (h : (k, v) ∈ l) :
    find k l = some v := by
  induction l with
  | nil => simp at h
  | cons a rest ih =>
    obtain ⟨ha, hr⟩ := List.pairwise_cons.mp hl
    rcases List.mem_cons.mp h with rfl | h
    · simp [find]
    · have hk := Std.OrientedCmp.gt_of_lt (ha _ h)
      simp [find, hk, ih hr h]

/-- A lookup answers exactly what is listed. -/
theorem get?_eq_some_iff {m : SortedMap κ α} {k : κ} {v : α} :
    m.get? k = some v ↔ (k, v) ∈ m.entries :=
  ⟨mem_of_find, find_of_mem m.ascending⟩

@[simp] theorem get?_insert_self (m : SortedMap κ α) (k : κ) (v : α) :
    (m.insert k v).get? k = some v := by
  rw [get?_insert, if_pos Std.ReflOrd.compare_self]

theorem get?_insert_of_ne {m : SortedMap κ α} {k x : κ} (h : x ≠ k) (v : α) :
    (m.insert k v).get? x = m.get? x := by
  rw [get?_insert, if_neg fun he => h (Std.LawfulEqOrd.eq_of_compare he)]

/-- A key that is bound after a new binding is the new one or was bound before. -/
theorem get?_insert_eq_some {m : SortedMap κ α} {k x : κ} {v w : α} :
    (m.insert k v).get? x = some w ↔ x = k ∧ w = v ∨ x ≠ k ∧ m.get? x = some w := by
  by_cases hx : x = k
  · subst hx
    simp [eq_comm]
  · simp [get?_insert_of_ne hx, hx]

/-- A key that is not bound after a new binding was not bound before. -/
theorem get?_insert_eq_none {m : SortedMap κ α} {k x : κ} {v : α} :
    (m.insert k v).get? x = none ↔ x ≠ k ∧ m.get? x = none := by
  by_cases hx : x = k
  · subst hx
    simp
  · simp [get?_insert_of_ne hx, hx]

/-- The bindings after a new one are the new one and those of other keys. -/
theorem mem_entries_insert {m : SortedMap κ α} {k : κ} {v : α} {e : κ × α} :
    e ∈ (m.insert k v).entries ↔ e = (k, v) ∨ e.1 ≠ k ∧ e ∈ m.entries := by
  obtain ⟨x, w⟩ := e
  rw [← get?_eq_some_iff, ← get?_eq_some_iff, get?_insert_eq_some, Prod.mk.injEq]

/-- A key is bound exactly if it is listed. -/
theorem contains_iff {m : SortedMap κ α} {k : κ} : m.contains k ↔ ∃ v, (k, v) ∈ m.entries := by
  simp only [contains, Option.isSome_iff_exists, get?_eq_some_iff]

/-- Ascending lists with the same members are equal. -/
theorem eq_of_ascending_of_mem_iff {l l' : List (κ × α)}
    (hl : l.Pairwise fun a b => compare a.1 b.1 = .lt)
    (hl' : l'.Pairwise fun a b => compare a.1 b.1 = .lt) (h : ∀ e, e ∈ l ↔ e ∈ l') : l = l' := by
  induction l generalizing l' with
  | nil =>
    cases l' with
    | nil => rfl
    | cons b l' => simpa using (h b).mpr (List.mem_cons_self ..)
  | cons a l ih =>
    cases l' with
    | nil => simpa using (h a).mp (List.mem_cons_self ..)
    | cons b l' =>
      obtain ⟨ha, hl⟩ := List.pairwise_cons.mp hl
      obtain ⟨hb, htail⟩ := List.pairwise_cons.mp hl'
      -- The head of either list would otherwise be above the other head.
      have hab : a = b := by
        rcases List.mem_cons.mp ((h a).mp (List.mem_cons_self ..)) with he | ha'
        · exact he
        · rcases List.mem_cons.mp ((h b).mpr (List.mem_cons_self ..)) with he | hb'
          · exact he.symm
          · have hgt := Std.OrientedCmp.gt_of_lt (ha b hb')
            rw [hb a ha'] at hgt
            cases hgt
      subst hab
      have hself : compare a.1 a.1 ≠ .lt := by simp
      refine congrArg (a :: ·) (ih hl htail fun e => ?_)
      constructor
      · intro he
        rcases List.mem_cons.mp ((h e).mp (List.mem_cons_of_mem _ he)) with rfl | he'
        · exact absurd (ha e he) hself
        · exact he'
      · intro he
        rcases List.mem_cons.mp ((h e).mpr (List.mem_cons_of_mem _ he)) with rfl | he'
        · exact absurd (hb e he) hself
        · exact he'

/-- A map is determined by what it lists. -/
theorem ext_entries {m n : SortedMap κ α} (h : ∀ e, e ∈ m.entries ↔ e ∈ n.entries) : m = n := by
  obtain ⟨l, hl⟩ := m
  obtain ⟨l', hl'⟩ := n
  obtain rfl : l = l' := eq_of_ascending_of_mem_iff hl hl' h
  rfl

/-- Binding a key to the value that it has changes nothing. -/
theorem insert_of_get? {m : SortedMap κ α} {k : κ} {v : α} (h : m.get? k = some v) :
    m.insert k v = m := by
  refine ext_entries fun e => ?_
  rw [mem_entries_insert]
  constructor
  · rintro (rfl | ⟨-, he⟩)
    · exact get?_eq_some_iff.mp h
    · exact he
  · intro he
    by_cases hk : e.1 = k
    · rw [get?_eq_some_iff.mpr (hk ▸ he : (k, e.2) ∈ m.entries), Option.some.injEq] at h
      exact .inl (Prod.ext hk h)
    · exact .inr ⟨hk, he⟩

/-- A binding of a new key adds one. -/
theorem size_insert {m : SortedMap κ α} {k : κ} (h : ∀ v, (k, v) ∉ m.entries) (v : α) :
    (m.insert k v).size = m.size + 1 :=
  length_place fun e he hk => h e.2 (hk ▸ he)

/-- Bindings of other keys leave a key as it is. -/
theorem get?_foldl_insert {k : κ} {l : List (κ × α)} (h : ∀ e ∈ l, e.1 ≠ k) (m : SortedMap κ α) :
    (l.foldl (fun m e => m.insert e.1 e.2) m).get? k = m.get? k := by
  induction l generalizing m with
  | nil => rfl
  | cons e l ih =>
    obtain ⟨he, hl⟩ := List.forall_mem_cons.mp h
    rw [List.foldl_cons, ih hl, get?_insert_of_ne (Ne.symm he)]

/-- Of several bindings of a key in a list the last one stays. -/
theorem get?_ofList_of_last {k : κ} {v : α} {l rest : List (κ × α)} (h : ∀ e ∈ rest, e.1 ≠ k) :
    (ofList (l ++ (k, v) :: rest)).get? k = some v := by
  rw [ofList, List.foldl_append, List.foldl_cons, get?_foldl_insert h, get?_insert_self]

/-- Bindings that name no key twice are all kept, whatever comes before them. -/
theorem get?_ofList_append {k : κ} {v : α} {l rest : List (κ × α)}
    (hrest : (rest.map Prod.fst).Nodup) (h : (k, v) ∈ rest) :
    (ofList (l ++ rest)).get? k = some v := by
  obtain ⟨before, after, rfl⟩ := List.append_of_mem h
  rw [List.map_append, List.nodup_append] at hrest
  have hafter : ∀ e ∈ after, e.1 ≠ k := fun e he hk => by
    have hk' : k ∉ after.map Prod.fst := (List.nodup_cons.mp hrest.2.1).1
    exact hk' (hk ▸ List.mem_map_of_mem he)
  rw [← List.append_assoc]
  exact get?_ofList_of_last hafter

theorem get?_ofList_of_mem {k : κ} {v : α} {l : List (κ × α)} (hl : (l.map Prod.fst).Nodup)
    (h : (k, v) ∈ l) : (ofList l).get? k = some v :=
  get?_ofList_append (l := []) hl h

theorem get?_ofList_eq_none {k : κ} {l : List (κ × α)} (h : ∀ e ∈ l, e.1 ≠ k) :
    (ofList l).get? k = none := by
  rw [ofList, get?_foldl_insert h, get?_empty]

end SortedMap
end Chronicle
