import Chronicle.Value.Basic

/-!
# Facts and their versions

A fact states the payload of an identity as of a block, or that it has none. A
stored fact is one version in the history of its identity.
-/

namespace Chronicle

/-- A statement to be appended to a table. -/
structure Fact where
  /-- What the fact is about. -/
  identity : Tuple
  /-- The block that states it. -/
  block : UInt64
  /-- Whether the identity has a payload from this block on. -/
  present : Bool
  /-- The payload, without meaning if there is none. -/
  payload : Tuple
  deriving DecidableEq, Repr

/-- The fact that an identity has a payload. -/
def Fact.live (identity : Tuple) (block : UInt64) (payload : Tuple) : Fact :=
  ⟨identity, block, true, payload⟩

/-- The fact that an identity has no payload any more. -/
def Fact.tombstone (identity : Tuple) (block : UInt64) : Fact := ⟨identity, block, false, []⟩

/-- One version of an identity. -/
structure Version where
  /-- The block that states it. -/
  block : UInt64
  /-- Whether the identity has a payload. -/
  present : Bool
  /-- The payload, empty for a tombstone. -/
  payload : Tuple
  deriving DecidableEq, Repr

/-- What is stored under the key of a version. -/
structure StoredFact where
  /-- The identity. -/
  identity : Tuple
  /-- The payload, empty for a tombstone. -/
  payload : Tuple
  deriving DecidableEq, Repr

end Chronicle
