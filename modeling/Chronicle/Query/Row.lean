import Chronicle.Storage.FactStore

/-!
# Rows

What an identity looks like as of a block: absent, a tombstone, or live. A
tombstone shows its identity and the default of every other field.
-/

namespace Chronicle

/-- A row of a result. -/
structure Row where
  /-- The block of the version shown. -/
  block : UInt64
  /-- Whether the version is live. -/
  present : Bool
  /-- The values, in the order of the columns. -/
  values : Tuple
  deriving DecidableEq, Repr

/-- An identity as of a block. -/
inductive Resolution where
  /-- There is no version so far. -/
  | absent
  /-- The newest version is a tombstone of this block. -/
  | tombstone (block : UInt64)
  /-- The newest version is live. -/
  | live (version : Version)
  deriving DecidableEq, Repr

/-- What the newest version says. -/
def Resolution.ofVersion : Option Version → Resolution
  | none => .absent
  | some v => if v.present then .live v else .tombstone v.block

/-- The row of an identity in a table. -/
def Resolution.toRow (t : Table) (identity : Tuple) : Resolution → Except Error (Option Row)
  | absent => .ok none
  | tombstone block =>
    (t.assemble identity t.defaultPayload).map fun values => some ⟨block, false, values⟩
  | live v => (t.assemble identity v.payload).map fun values => some ⟨v.block, true, values⟩

namespace FactStore

/-- An identity as of a block. -/
def resolve (s : FactStore) (d : Directory) (identity : Tuple) (block : UInt64) :
    Except Error Resolution :=
  (s.versionAt d identity block).map Resolution.ofVersion

/-- The row of an identity as of a block, if it has one. -/
def resolveRow (s : FactStore) (d : Directory) (identity : Tuple) (block : UInt64) :
    Except Error (Option Row) := do
  (← s.resolve d identity block).toRow s.table identity

end FactStore
end Chronicle
