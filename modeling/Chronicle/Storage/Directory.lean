import Chronicle.Bytes
import Chronicle.SortedMap
import Chronicle.Storage.Fact

/-!
# The database directory

What a database keeps on disk: for each table the tree of its versions, the
trees of its indexes, and the head block. Trees are found by name alone and
outlive the definitions of their tables and indexes. A tree that was never
written is empty.
-/

namespace Chronicle

/-- Versions by the key of identity and block. -/
abbrev FactTree := SortedMap Bytes StoredFact

/-- Identities by their place in an index. -/
abbrev IndexTree := SortedMap Bytes Tuple

/-- The stored trees and the head block. -/
structure Directory where
  /-- The version trees by table name. -/
  facts : SortedMap String FactTree
  /-- The index trees by tree name. -/
  indexes : SortedMap String IndexTree
  /-- The highest block seen, unless it was set otherwise. -/
  head : UInt64

namespace Directory

/-- The directory of a new database. -/
def empty : Directory := ⟨.empty, .empty, 0⟩

instance : Inhabited Directory := ⟨empty⟩

/-- The version tree of a table. -/
def factTree (d : Directory) (table : String) : FactTree := (d.facts.get? table).getD .empty

/-- The index tree of a name. -/
def indexTree (d : Directory) (name : String) : IndexTree := (d.indexes.get? name).getD .empty

/-- Replace the version tree of a table. -/
def setFactTree (d : Directory) (table : String) (tree : FactTree) : Directory :=
  { d with facts := d.facts.insert table tree }

/-- Replace the index tree of a name. -/
def setIndexTree (d : Directory) (name : String) (tree : IndexTree) : Directory :=
  { d with indexes := d.indexes.insert name tree }

/-- Raise the head block to a block. -/
def advance (d : Directory) (block : UInt64) : Directory := { d with head := max d.head block }

@[simp] theorem factTree_empty (table : String) : empty.factTree table = .empty := rfl

@[simp] theorem indexTree_empty (name : String) : empty.indexTree name = .empty := rfl

@[simp] theorem factTree_setFactTree_self (d : Directory) (table : String) (tree : FactTree) :
    (d.setFactTree table tree).factTree table = tree := by
  simp [factTree, setFactTree]

theorem factTree_setFactTree_of_ne (d : Directory) {table other : String} (h : other ≠ table)
    (tree : FactTree) : (d.setFactTree table tree).factTree other = d.factTree other := by
  simp [factTree, setFactTree, SortedMap.get?_insert_of_ne h]

@[simp] theorem indexTree_setFactTree (d : Directory) (table name : String) (tree : FactTree) :
    (d.setFactTree table tree).indexTree name = d.indexTree name := rfl

@[simp] theorem indexTree_setIndexTree_self (d : Directory) (name : String) (tree : IndexTree) :
    (d.setIndexTree name tree).indexTree name = tree := by
  simp [indexTree, setIndexTree]

theorem indexTree_setIndexTree_of_ne (d : Directory) {name other : String} (h : other ≠ name)
    (tree : IndexTree) : (d.setIndexTree name tree).indexTree other = d.indexTree other := by
  simp [indexTree, setIndexTree, SortedMap.get?_insert_of_ne h]

@[simp] theorem factTree_setIndexTree (d : Directory) (name table : String) (tree : IndexTree) :
    (d.setIndexTree name tree).factTree table = d.factTree table := rfl

@[simp] theorem factTree_advance (d : Directory) (block : UInt64) (table : String) :
    (d.advance block).factTree table = d.factTree table := rfl

@[simp] theorem indexTree_advance (d : Directory) (block : UInt64) (name : String) :
    (d.advance block).indexTree name = d.indexTree name := rfl

end Directory
end Chronicle
