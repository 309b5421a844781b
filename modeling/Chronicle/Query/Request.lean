import Chronicle.Value.Json

/-!
# Requests

A request asks for one page of a named query, between two bounds and as of a
block. The next page is asked for by the same request with the first bound
replaced.
-/

namespace Chronicle

/-- A request for one page of a query. -/
structure Request where
  /-- The name of the query. -/
  query : String
  /-- Versions of later blocks are not seen. -/
  maxBlock : UInt64
  /-- The smallest bound of the range. -/
  first : Tuple
  /-- The largest bound of the range. -/
  last : Tuple
  /-- The largest number of rows. -/
  maxResults : UInt32
  deriving DecidableEq, Repr

namespace Request

/-- A request without rows, as of the last possible block. -/
def ofQuery (query : String) : Request := ⟨query, 18446744073709551615, [], [], 0⟩

/-- The same request as of a block. -/
def atBlock (r : Request) (block : UInt64) : Request := { r with maxBlock := block }

/-- The same request for a range. -/
def withRange (r : Request) (first last : Tuple) : Request := { r with first, last }

/-- The same request for at most so many rows. -/
def withMaxResults (r : Request) (rows : UInt32) : Request := { r with maxResults := rows }

/-- The request for the page that starts at a continuation token. -/
def resume (r : Request) (token : Tuple) : Request := { r with first := token }

/-- The JSON form. -/
def toJson (r : Request) : Json :=
  .object [("query", .string r.query), ("max_block_index", .integer r.maxBlock.toNat),
    ("first", Tuple.toTagged r.first), ("last", Tuple.toTagged r.last),
    ("max_results", .integer r.maxResults.toNat)]

/-- The request of a document. -/
def ofDocument? (d : Json.Document) : Option Request :=
  match d.fields? [.required "query", .required "max_block_index", .required "first",
      .required "last", .required "max_results"] with
  | some [some query, some block, some first, some last, some rows] => do
    return ⟨← query.string?, ← Value.uint64? block, ← Tuple.ofDocument? first,
      ← Tuple.ofDocument? last, ← Value.uint32? rows⟩
  | _ => none

/-- The request of a JSON text. -/
def ofText? (text : String) : Option Request := (Json.Document.ofText? text).bind ofDocument?

end Request
end Chronicle
