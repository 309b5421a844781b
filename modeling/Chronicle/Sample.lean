import Chronicle.Database

/-!
# A sample schema

Rows of contracts on a ledger, with two indexes that differ in the order of
scope and primary key. It serves to measure and to try out databases.
-/

namespace Chronicle.Sample

/-- The size of a generated history. -/
inductive Scale where
  /-- A hundred identities. -/
  | small
  /-- Two thousand identities. -/
  | medium
  /-- Fifty thousand identities. -/
  | large
  deriving DecidableEq, Repr

instance : Inhabited Scale := ⟨.medium⟩

/-- The number of identities. -/
def Scale.keys : Scale → Nat
  | small => 100
  | medium => 2000
  | large => 50000

/-- The average number of versions of an identity. -/
def Scale.versionsPerKey : Scale → Nat
  | small => 4
  | medium => 8
  | large => 8

/-- The table of contract rows. -/
def contractRow : Table where
  name := "contract_row"
  fields := [⟨"code", .string⟩, ⟨"table", .string⟩, ⟨"scope", .string⟩,
    ⟨"primary_key", .uint64⟩, ⟨"payer", .string⟩, ⟨"value", .bytes⟩]
  keys := ["code", "table", "scope", "primary_key"]

/-- Contract rows by primary key before scope. -/
def byPrimaryKey : Index where
  name := "contract_row_by_pk"
  table := "contract_row"
  sortKeys := [.asc "code", .asc "table", .asc "primary_key", .asc "scope"]

/-- Contract rows by scope before primary key. -/
def byScope : Index where
  name := "contract_row_by_scope"
  table := "contract_row"
  sortKeys := [.asc "code", .asc "table", .asc "scope", .asc "primary_key"]

/-- The table, its indexes, and a query over each. -/
def configuration : Configuration where
  tables := [contractRow]
  indexes := [byPrimaryKey, byScope]
  queries := [⟨"by_pk", "contract_row_by_pk", true, 1000, none⟩,
    ⟨"by_scope", "contract_row_by_scope", true, 1000, none⟩]

/-- A number in five digits or more. -/
def fiveDigits (n : Nat) : String :=
  let digits := toString n
  "".pushn '0' (5 - digits.length) ++ digits

/-- The identity of the `n`-th generated row. -/
def rowIdentity (n : UInt64) : Tuple :=
  [.string "eosio.token", .string "accounts", .string ("scope" ++ fiveDigits (n.toNat % 97)),
    .uint64 n]

/-- A bound of one of the two queries. -/
def bound (query scope : String) (primaryKey : UInt64) : Tuple :=
  let last : Tuple := if query = "by_pk" then [.uint64 primaryKey, .string scope]
    else [.string scope, .uint64 primaryKey]
  [.string "eosio.token", .string "accounts"] ++ last

/-- A request for all generated rows. -/
def fullRange (query : String) (block : UInt64) (rows : UInt32) : Request :=
  ((Request.ofQuery query).atBlock block).withRange (bound query "" 0)
    (bound query "~" 18446744073709551615) |>.withMaxResults rows

/-- A new database with the sample schema. -/
def database : Database := ((Database.ofDirectory .empty).loadConfiguration configuration).1

end Chronicle.Sample
