import Chronicle.Schema.Index
import Chronicle.Storage.Directory

/-!
# Fact stores

A store reads and writes the versions of one table, and keeps the registered
indexes of the table complete. Its data lives in the directory, so two stores
of one table name share it. Versions are only ever added, in the order of
their blocks for each identity.
-/

namespace Chronicle

/-- A table with its registered indexes. -/
structure FactStore where
  /-- The table. -/
  table : Table
  /-- The layouts of the registered indexes, by index name. -/
  layouts : SortedMap String Layout
  deriving DecidableEq

/-- The name of an index's tree. -/
def Layout.treeName (l : Layout) : String := l.table ++ ":" ++ l.name

/-- What an append did. -/
inductive AppendOutcome where
  /-- A new version was stored. -/
  | appended
  /-- The version was stored before. -/
  | unchanged
  deriving DecidableEq, Repr

/-- A place in an index and the identity found there. -/
structure IndexedKey where
  /-- The place. -/
  position : Bytes
  /-- The identity. -/
  identity : Tuple
  deriving DecidableEq, Repr

namespace FactStore

/-- The store of a table, without indexes. -/
def ofTable (t : Table) : Except Error FactStore := do
  t.validate
  return ⟨t, .empty⟩

/-- The versions of the table. -/
def facts (s : FactStore) (d : Directory) : FactTree := d.factTree s.table.name

/-- The number of stored versions. -/
def factCount (s : FactStore) (d : Directory) : Nat := (s.facts d).size

/-- The layout of a registered index. -/
def layout (s : FactStore) (index : String) : Except Error Layout :=
  match s.layouts.get? index with
  | some l => .ok l
  | none => .error (.unknownIndex index)

/-- Place the identities of stored versions in an index tree, one after the
other, and count them. The versions of one identity are neighbours, and
`previous` is the key of the identity placed last. -/
def placeAll (l : Layout) (previous : Option Bytes) (tree : IndexTree) :
    List (Bytes × StoredFact) → IndexTree × Except Error Nat
  | [] => (tree, .ok 0)
  | (key, stored) :: rest =>
    let identity := Key.identityPart key
    if previous = some identity then placeAll l previous tree rest
    else match l.positionOfIdentity stored.identity with
      | .error e => (tree, .error e)
      | .ok position =>
        let (tree, count) := placeAll l (some identity) (tree.insert position stored.identity) rest
        (tree, count.map (· + 1))

/-- Add the identities of all stored versions to an index tree. -/
def buildIndex (s : FactStore) (d : Directory) (l : Layout) (tree : IndexTree) :
    Directory × Except Error Nat :=
  let (tree, count) := placeAll l none tree (s.facts d).entries
  (d.setIndexTree l.treeName tree, count)

/-- Register an index. An empty index tree is first built from the stored
versions. A build that fails leaves what it has placed. -/
def registerIndex (s : FactStore) (d : Directory) (i : Index) :
    Directory × Except Error (FactStore × Layout) :=
  match i.compile s.table with
  | .error e => (d, .error e)
  | .ok l =>
    let registered : FactStore := { s with layouts := s.layouts.insert i.name l }
    if (d.indexTree l.treeName).isEmpty && !(s.facts d).isEmpty then
      let (d, count) := s.buildIndex d l (d.indexTree l.treeName)
      (d, count.map fun _ => (registered, l))
    else (d, .ok (registered, l))

/-- Build a registered index anew from the stored versions. -/
def rebuildIndex (s : FactStore) (d : Directory) (index : String) : Directory × Except Error Nat :=
  match s.layout index with
  | .error e => (d, .error e)
  | .ok l => s.buildIndex d l .empty

/-- The version stored under a key. -/
def readVersion (entry : Bytes × StoredFact) : Except Error Version :=
  match Key.version? entry.1 with
  | some (block, present) => .ok ⟨block, present, entry.2.payload⟩
  | none => .error .undecodable

/-- The versions of an identity key from a start on, newest first. -/
def versionEntries (s : FactStore) (d : Directory) (start identity : Bytes) :
    List (Bytes × StoredFact) :=
  (s.facts d).between (.including start) (.excluding (Key.identityEnd identity))

/-- The first of some versions. -/
def newest : List (Bytes × StoredFact) → Except Error (Option Version)
  | [] => .ok none
  | entry :: _ => (readVersion entry).map some

/-- All versions of an identity, newest first. -/
def versionsOf (s : FactStore) (d : Directory) (identity : Tuple) :
    Except Error (List Version) := do
  s.table.checkIdentity identity
  let key := Key.ofIdentity identity
  (s.versionEntries d key key).mapM readVersion

/-- The newest version of an identity that is not newer than a block. -/
def versionAt (s : FactStore) (d : Directory) (identity : Tuple) (block : UInt64) :
    Except Error (Option Version) := do
  s.table.checkIdentity identity
  let key := Key.ofIdentity identity
  newest (s.versionEntries d (Key.snapshotStart key block) key)

/-- The payload that is stored for a fact. A tombstone has none. -/
def storedPayload (f : Fact) : Tuple := if f.present then f.payload else []

/-- Decide about a fact of the right shape, by the latest version of its
identity. -/
def judgeLatest (s : FactStore) (f : Fact) : Option Version → Except Error AppendOutcome
  | none => .ok .appended
  | some latest =>
    if f.block < latest.block then
      .error (Conflict.outOfOrder s.table.name f.block latest.block)
    else if latest.block < f.block then .ok .appended
    else if latest.present = f.present ∧ latest.payload = storedPayload f then .ok .unchanged
    else .error (Conflict.occupied s.table.name f.block)

/-- Decide what appending a fact would do, by its shape and by the latest
version of its identity. -/
def judge (s : FactStore) (d : Directory) (f : Fact) : Except Error AppendOutcome := do
  s.table.checkIdentity f.identity
  if f.present then s.table.checkPayload f.payload
  let key := Key.ofIdentity f.identity
  s.judgeLatest f (← newest (s.versionEntries d key key))

/-- Place an identity in an index, unless its place is taken. -/
def indexIdentity (identity : Tuple) (d : Directory) (l : Layout) : Except Error Directory := do
  let position ← l.positionOfIdentity identity
  let tree := d.indexTree l.treeName
  return if tree.contains position then d
    else d.setIndexTree l.treeName (tree.insert position identity)

/-- Place an identity in some indexes, one after the other, up to the first
that has no place for it. -/
def indexAll (identity : Tuple) (d : Directory) : List Layout → Directory × Except Error Unit
  | [] => (d, .ok ())
  | l :: rest =>
    match indexIdentity identity d l with
    | .error e => (d, .error e)
    | .ok d => indexAll identity d rest

/-- Store a fact as a version. -/
def record (s : FactStore) (d : Directory) (f : Fact) : Directory :=
  let key := Key.ofVersion (Key.ofIdentity f.identity) f.block f.present
  d.setFactTree s.table.name ((s.facts d).insert key ⟨f.identity, storedPayload f⟩)

/-- Append a fact. Its identity is placed in every registered index before the
version is stored. -/
def append (s : FactStore) (d : Directory) (f : Fact) : Directory × Except Error AppendOutcome :=
  match s.judge d f with
  | .error e => (d, .error e)
  | .ok .unchanged => (d, .ok .unchanged)
  | .ok .appended =>
    match indexAll f.identity d s.layouts.values with
    | (d, .error e) => (d, .error e)
    | (d, .ok ()) => (s.record d f, .ok .appended)

/-- The entries of an index between two places. -/
def scan (tree : IndexTree) (lower upper : SortedMap.Endpoint Bytes) : List IndexedKey :=
  (tree.between lower upper).map fun e => ⟨e.1, e.2⟩

end FactStore
end Chronicle
