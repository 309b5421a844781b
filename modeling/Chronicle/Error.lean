import Chronicle.Json.Basic
import Chronicle.ScalarType
import Chronicle.Schema.Expression

/-!
# Failures

Every failure is a cause with the facts that explain it. The wording is in one
`message` function per kind of cause.
-/

namespace Chronicle

/-- The two parts of a stored fact. -/
inductive FactPart where
  /-- The values that name what the fact is about. -/
  | identity
  /-- The other values. -/
  | payload
  deriving DecidableEq, Repr

/-- The name of a part in messages. -/
def FactPart.name : FactPart → String
  | identity => "identity"
  | payload => "payload"

/-- A malformed argument. -/
inductive Violation where
  /-- A tuple has the wrong number of values. -/
  | arity (table : String) (part : FactPart) (given expected : Nat)
  /-- A value of a tuple has the wrong type. -/
  | valueType (table : String) (part : FactPart) (position : Nat) (given expected : ScalarType)
  /-- A record lacks an identity field. -/
  | missingKey (table key : String)
  /-- A record has a field that its table lacks. -/
  | unknownField (table field : String)
  /-- A JSON value stands for no value of a type. -/
  | mismatch (expected : ScalarType) (given : Json)
  /-- An expression does not apply to a value. -/
  | expression (expression : Expression) (given : ScalarType)
  /-- A bound has the wrong number of values. -/
  | boundArity (index : String) (given : Nat) (fields : List String)
  /-- A value of a bound has the wrong type. -/
  | boundType (index field : String) (given expected : ScalarType)
  /-- A bound is no JSON array. -/
  | boundNotArray (query : String)
  /-- A JSON array for a bound has the wrong length. -/
  | boundLength (query : String) (given expected : Nat)
  /-- Pages without rows would never end. -/
  | pageSize
  deriving Repr

/-- What a malformed argument is told. -/
def Violation.message : Violation → String
  | arity table part given expected =>
    "table " ++ table ++ ": " ++ part.name ++ " has " ++ toString given ++ " values, expected "
      ++ toString expected
  | valueType table part position given expected =>
    "table " ++ table ++ ": " ++ part.name ++ " value " ++ toString position ++ " is "
      ++ given.name ++ ", expected " ++ expected.name
  | missingKey table key => "table " ++ table ++ ": missing key field " ++ key
  | unknownField table field => "table " ++ table ++ ": unknown field " ++ field
  | mismatch expected given => "expected " ++ expected.name ++ " value, got " ++ given.text
  | expression e given =>
    "expression " ++ e.describe ++ " cannot be applied to " ++ given.name
  | boundArity index given fields =>
    "index " ++ index ++ ": bound has " ++ toString given ++ " values, expected "
      ++ toString fields.length ++ " (" ++ ", ".intercalate fields ++ ")"
  | boundType index field given expected =>
    "index " ++ index ++ ": bound field " ++ field ++ " is " ++ given.name ++ ", expected "
      ++ expected.name
  | boundNotArray query => "query " ++ query ++ ": bound must be a JSON array"
  | boundLength query given expected =>
    "query " ++ query ++ ": bound has " ++ toString given ++ " values, expected "
      ++ toString expected
  | pageSize => "page size must be positive to make progress"

/-- An append that would break the order of versions. -/
inductive Conflict where
  /-- The block is older than the latest version. -/
  | outOfOrder (table : String) (block latest : UInt64)
  /-- The block holds another version. -/
  | occupied (table : String) (block : UInt64)
  deriving DecidableEq, Repr

/-- What a refused append is told. -/
def Conflict.message : Conflict → String
  | outOfOrder table block latest =>
    "table " ++ table ++ ": block " ++ toString block.toNat
      ++ " precedes latest version at block " ++ toString latest.toNat
  | occupied table block =>
    "table " ++ table ++ ": block " ++ toString block.toNat
      ++ " already holds a different version"

/-- An invalid definition of a table, index, join or query. -/
inductive Flaw where
  /-- A table has no name. -/
  | tableUnnamed
  /-- Two fields of a table have one name. -/
  | duplicateField (table field : String)
  /-- A table has no identity fields. -/
  | noKeys (table : String)
  /-- An identity field is no field of the table. -/
  | keyNotField (table key : String)
  /-- An identity field is listed twice. -/
  | keyTwice (table key : String)
  /-- A table of the same name is defined differently. -/
  | tableDiffers (table : String)
  /-- An identity field has no type. -/
  | keyUnknown (table key : String)
  /-- A field has no type. -/
  | fieldUnknown (table field : String)
  /-- An expression does not apply to a type. -/
  | expression (expression : Expression) (given : ScalarType)
  /-- An index is compiled against another table than its own. -/
  | foreignIndex (index own given : String)
  /-- An index has no sort keys. -/
  | noSortKeys (index : String)
  /-- A sort key is no identity field. -/
  | sortKeyNotIdentity (index field table : String)
  /-- A sort key has no type. -/
  | sortKeyUnknown (index : String)
  /-- An identity field is nowhere a sort key by itself. -/
  | keyNotCovered (index key : String)
  /-- An index of the same name is defined differently. -/
  | indexDiffers (index : String)
  /-- A join has the wrong number of key fields. -/
  | joinArity (primary secondary : String) (given expected : Nat)
  /-- A key field of a join is no field of the first table. -/
  | joinKeyUnknown (primary secondary field : String)
  /-- A key field of a join has the wrong type. -/
  | joinKeyType (primary secondary field : String) (given expected : ScalarType)
  /-- A joined field is no field of the second table. -/
  | joinFieldUnknown (primary secondary field : String)
  /-- A query names an index that is not defined. -/
  | queryIndex (query index : String)
  /-- A query joins a table that is not defined. -/
  | queryJoinTable (query table : String)
  /-- Two columns of a query have one label. -/
  | duplicateColumn (query column : String)
  /-- Two queries have one name. -/
  | duplicateQuery (query : String)
  deriving DecidableEq, Repr

/-- What an invalid definition is told. -/
def Flaw.message : Flaw → String
  | tableUnnamed => "table name is empty"
  | duplicateField table field => "table " ++ table ++ ": duplicate field " ++ field
  | noKeys table => "table " ++ table ++ ": no identity keys"
  | keyNotField table key => "table " ++ table ++ ": key " ++ key ++ " is not a field"
  | keyTwice table key => "table " ++ table ++ ": key " ++ key ++ " listed twice"
  | tableDiffers table => "table " ++ table ++ " is already defined differently"
  | keyUnknown table key => "table " ++ table ++ ": unknown key " ++ key
  | fieldUnknown table field => "table " ++ table ++ ": unknown field " ++ field
  | expression e given => "expression " ++ e.describe ++ " cannot be applied to " ++ given.name
  | foreignIndex index own given =>
    "index " ++ index ++ " is defined on " ++ own ++ ", not " ++ given
  | noSortKeys index => "index " ++ index ++ ": no sort keys"
  | sortKeyNotIdentity index field table =>
    "index " ++ index ++ ": " ++ field ++ " is not an identity field of " ++ table
  | sortKeyUnknown index => "index " ++ index ++ ": unknown field"
  | keyNotCovered index key =>
    "index " ++ index ++ ": identity field " ++ key ++ " must appear as a plain sort key"
  | indexDiffers index => "index " ++ index ++ " is already defined differently"
  | joinArity primary secondary given expected =>
    "join " ++ primary ++ " -> " ++ secondary ++ ": " ++ toString given ++ " key values for "
      ++ toString expected ++ " identity fields"
  | joinKeyUnknown primary secondary field =>
    "join " ++ primary ++ " -> " ++ secondary ++ ": unknown key field " ++ field
  | joinKeyType primary secondary field given expected =>
    "join " ++ primary ++ " -> " ++ secondary ++ ": key field " ++ field ++ " is " ++ given.name
      ++ ", expected " ++ expected.name
  | joinFieldUnknown primary secondary field =>
    "join " ++ primary ++ " -> " ++ secondary ++ ": unknown field " ++ field
  | queryIndex query index => "query " ++ query ++ ": unknown index " ++ index
  | queryJoinTable query table => "query " ++ query ++ ": unknown join table " ++ table
  | duplicateColumn query column =>
    "query " ++ query ++ ": duplicate output column " ++ column
  | duplicateQuery query => "duplicate query " ++ query

/-- A step that has no result at all. No definition that was checked leads to
one. -/
inductive Fault where
  /-- An integer is divided by zero. -/
  | divisionByZero
  /-- A tuple lacks a value that a layout reads. -/
  | missingValue
  /-- Pages follow each other without an end. -/
  | endless
  deriving DecidableEq, Repr

/-- What is said of a step without a result. -/
def Fault.message : Fault → String
  | divisionByZero => "division by zero"
  | missingValue => "missing value"
  | endless => "endless pages"

/-- Why an operation failed. -/
inductive Error where
  /-- An argument is malformed. -/
  | violation (cause : Violation)
  /-- An append would break the order of versions. -/
  | conflict (cause : Conflict)
  /-- A definition is invalid. -/
  | flaw (cause : Flaw)
  /-- No query has the name. -/
  | unknownQuery (name : String)
  /-- No table has the name. -/
  | unknownTable (name : String)
  /-- No index has the name. -/
  | unknownIndex (name : String)
  /-- A text is no JSON, or not of the expected shape. -/
  | malformed
  /-- A text is no continuation token. -/
  | invalidToken
  /-- Stored bytes do not decode. -/
  | undecodable
  /-- A step has no result. -/
  | fault (cause : Fault)
  deriving Repr

/-- The full text of a failure. -/
def Error.message : Error → String
  | violation cause => "contract violation: " ++ cause.message
  | conflict cause => "store invariant violation: " ++ cause.message
  | flaw cause => "configuration error: " ++ cause.message
  | unknownQuery name => "unknown query: " ++ name
  | unknownTable name => "unknown table: " ++ name
  | unknownIndex name => "unknown index: " ++ name
  | malformed => "json error: malformed input"
  | invalidToken => "invalid continuation token: malformed input"
  | undecodable => "deserialization error: malformed bytes"
  | fault cause => cause.message

instance : Coe Violation Error := ⟨.violation⟩
instance : Coe Conflict Error := ⟨.conflict⟩
instance : Coe Flaw Error := ⟨.flaw⟩

end Chronicle
