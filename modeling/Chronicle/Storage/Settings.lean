/-!
# Storage settings

How a database is to be stored. Only the path matters to what a database
answers.
-/

namespace Chronicle

/-- The settings of a database's storage. -/
structure StorageSettings where
  /-- The directory. -/
  path : String
  /-- The bytes that may be held in memory. -/
  cacheBytes : Nat
  /-- The milliseconds between writes to disk. Without them every change is
  written at once. -/
  flushInterval : Option Nat
  /-- Whether stored data is compressed. -/
  compression : Bool
  /-- Whether the database vanishes when it is closed. -/
  temporary : Bool
  deriving DecidableEq, Repr

namespace StorageSettings

/-- The default settings for a path. -/
def atPath (path : String) : StorageSettings := ⟨path, 512 * 1024 * 1024, some 1000, true, false⟩

/-- The default settings. -/
def default : StorageSettings := .atPath "./histdb_data"

/-- The settings of a database that is not kept. -/
def transient : StorageSettings := { default with path := "", temporary := true }

end StorageSettings
end Chronicle
