import Chronicle.Proofs.Sessions

/-!
# Isolated tables

A call that works on one table leaves every index of another, as long as no
index of the first shares its tree name. A tree name joins the names of table
and index by a colon, so tables whose names hold no colon share none. A name
with a colon may end where another one begins an index name, and then an append
to one table shows up in an index of the other.
-/

namespace Chronicle

open FactStore

/-- Tree names of tables without a colon begin with the names of the tables. -/
theorem Index.table_eq_of_treeName_eq {i j : Index} (hi : ':' ∉ i.table.toList)
    (hj : ':' ∉ j.table.toList) (h : i.treeName = j.treeName) : i.table = j.table := by
  have hbefore : ∀ k : Index, ':' ∉ k.table.toList →
      k.treeName.toList.takeWhile (· != ':') = k.table.toList := by
    intro k hk
    have hplain : ∀ c ∈ k.table.toList, (c != ':') = true := fun c hc => by
      rw [bne_iff_ne]
      rintro rfl
      exact hk hc
    rw [treeName, String.toList_append, String.toList_append, List.append_assoc,
      List.takeWhile_append_of_pos hplain]
    simp
  rw [← String.toList_inj, ← hbefore i hi, ← hbefore j hj, h]

namespace Database

variable {db : Database} {c : DatabaseCall} {a b index : String} {s : FactStore} {l : Layout}

/-- Whether a store, its facts and the tree of a layout are as they were. -/
structure Untouched (db db' : Database) (table : String) (s : FactStore) (l : Layout) : Prop where
  /-- The store is the same. -/
  store_eq : db'.store table = .ok s
  /-- Its facts are the same. -/
  facts_eq : s.facts db'.directory = s.facts db.directory
  /-- The tree is the same. -/
  indexTree_eq : db'.directory.indexTree l.treeName = db.directory.indexTree l.treeName
  /-- Every scan of it is the same. -/
  scan_eq : ∀ lower upper, FactStore.scan (db'.directory.indexTree l.treeName) lower upper =
    FactStore.scan (db.directory.indexTree l.treeName) lower upper

/-- A call that works on another table leaves a store and its indexes, if no two
indexes of the two tables share a tree. -/
theorem Opened.untouched (h : db.Opened) (hc : c.table? = some a) (hne : a ≠ b)
    (hs : db.store b = .ok s) (hl : s.layout index = .ok l)
    (hsep : ∀ i j, (db.call c).catalog.Knows i → (db.call c).catalog.Knows j → i.table = a →
      j.table = b → i.treeName ≠ j.treeName) :
    Untouched db (db.call c) b s l := by
  have hframe := h.frame_call hc
  have hname := h.table_name (store_eq_ok.mp hs)
  obtain ⟨j, hj, hjtable, hjtree⟩ :=
    h.exists_treeName (store_eq_ok.mp hs) (layout_eq_ok.mp hl)
  have htree : (db.call c).directory.indexTree l.treeName = db.directory.indexTree l.treeName := by
    refine hframe.indexTree_eq _ fun i hi htable => ?_
    rw [← hjtree]
    exact hsep i j hi ((extends_call db c).knows hj) htable hjtable
  refine ⟨?_, ?_, htree, fun lower upper => by rw [htree]⟩
  · rw [store_eq_ok, hframe.store_eq b hne.symm]
    exact store_eq_ok.mp hs
  · rw [facts, facts, hname]
    exact hframe.factTree_eq b hne.symm

/-- Appending to a table, registering an index on it or rebuilding one leaves
every index of another table, if no two indexes of the two share a tree. -/
theorem tables_isolated (d : Directory) (calls : List DatabaseCall) (hc : c.table? = some a)
    (hne : a ≠ b) (hs : ((ofDirectory d).run calls).store b = .ok s)
    (hl : s.layout index = .ok l)
    (hsep : ∀ i j, (((ofDirectory d).run calls).call c).catalog.Knows i →
      (((ofDirectory d).run calls).call c).catalog.Knows j → i.table = a → j.table = b →
      i.treeName ≠ j.treeName) :
    Untouched ((ofDirectory d).run calls) (((ofDirectory d).run calls).call c) b s l :=
  ((Opened.ofDirectory d).run calls).untouched hc hne hs hl hsep

/-- Tables whose names hold no colon are isolated, whatever their indexes are
called. -/
theorem untouched_of_plain_names (d : Directory) (calls : List DatabaseCall)
    (hc : c.table? = some a) (hne : a ≠ b) (ha : ':' ∉ a.toList) (hb : ':' ∉ b.toList)
    (hs : ((ofDirectory d).run calls).store b = .ok s) (hl : s.layout index = .ok l) :
    Untouched ((ofDirectory d).run calls) (((ofDirectory d).run calls).call c) b s l := by
  refine ((Opened.ofDirectory d).run calls).untouched hc hne hs hl fun i j _ _ hi hj he => hne ?_
  rw [← hi, ← hj]
  exact Index.table_eq_of_treeName_eq (hi ▸ ha) (hj ▸ hb) he

/-- A table of one text field. -/
def oneField (name : String) : Table := ⟨name, [⟨"k", .string⟩], ["k"]⟩

/-- An index over the field of such a table. -/
def byField (name table : String) : Index := ⟨name, table, [.asc "k"]⟩

/-- A table name with a colon and an index name with a colon, joined alike. -/
def alikeCalls : List DatabaseCall :=
  [.registerTable (oneField "a:b"), .registerTable (oneField "a"),
    .registerIndex (byField "c" "a:b"), .registerIndex (byField "b:c" "a")]

/-- Two tables with plain names, one of them with an index name with a colon. -/
def plainCalls : List DatabaseCall :=
  [.registerTable (oneField "b"), .registerTable (oneField "a"),
    .registerIndex (byField "c" "b"), .registerIndex (byField "b:c" "a")]

/-- A fact about such a table. -/
def oneFact : Fact := .live [.string "x"] 1 []

/-- The layout of the index of the second table. -/
def secondLayout : Layout := ⟨"b:c", "a", [⟨"k", 0, .string, none, .asc⟩]⟩

/-- The store of the second table. -/
def secondStore : FactStore := ⟨oneField "a", SortedMap.empty.insert "b:c" secondLayout⟩

/-- An append to one table leaves the index of the other. -/
theorem sample_tables_isolated :
    let db := (ofDirectory .empty).run plainCalls
    db.store "a" = .ok secondStore ∧ secondStore.layout "b:c" = .ok secondLayout ∧
      Untouched db (db.call (.append "b" oneFact)) "a" secondStore secondLayout := by
  have hs : ((ofDirectory .empty).run plainCalls).store "a" = .ok secondStore := rfl
  have hl : secondStore.layout "b:c" = .ok secondLayout := rfl
  have hnames : ∀ i ∈ (((ofDirectory .empty).run plainCalls).call
      (.append "b" oneFact)).catalog.indexes.values, ∀ j ∈ (((ofDirectory .empty).run
      plainCalls).call (.append "b" oneFact)).catalog.indexes.values, i.table = "b" →
      j.table = "a" → i.treeName ≠ j.treeName := by decide +kernel
  exact ⟨hs, hl, tables_isolated .empty plainCalls rfl (by decide) hs hl fun i j hi hj =>
    hnames i hi.mem_values j hj.mem_values⟩

/-- An append to a table shows up in an index of another one. -/
theorem not_tables_isolated :
    ¬∀ (d : Directory) (calls : List DatabaseCall) (c : DatabaseCall) (a b index : String)
      (s : FactStore) (l : Layout), c.table? = some a → a ≠ b →
      ((ofDirectory d).run calls).store b = .ok s → s.layout index = .ok l →
      (((ofDirectory d).run calls).call c).directory.indexTree l.treeName =
        ((ofDirectory d).run calls).directory.indexTree l.treeName := by
  intro h
  have htree := h .empty alikeCalls (.append "a:b" oneFact) "a:b" "a" "b:c" secondStore secondLayout
    rfl (by decide) rfl rfl
  have hsize := congrArg SortedMap.size htree
  revert hsize
  decide +kernel

end Database
end Chronicle
