import Chronicle.Query.Row

/-!
# Responses

A response is one page of a query with the labels of its columns. If more
rows follow it carries a continuation token, the first bound of the next page.
-/

namespace Chronicle

/-- A page of results. -/
structure Response where
  /-- The labels of the columns. -/
  columns : List String
  /-- The rows, in index order. -/
  rows : List Row
  /-- The continuation token, if more rows follow. -/
  more : Option Tuple
  deriving DecidableEq, Repr

namespace Response

/-- Whether no more rows follow. -/
def isComplete (r : Response) : Bool := r.more.isNone

/-- The position of the first column with a label. -/
def columnIndex? (r : Response) (label : String) : Option Nat :=
  r.columns.findIdx? (· == label)

/-- The value of a row in the first column with a label. -/
def value? (r : Response) (row : Nat) (label : String) : Option Value := do
  let column ← r.columnIndex? label
  let found ← r.rows[row]?
  found.values[column]?

/-- The JSON form. -/
def toJson (r : Response) : Json :=
  let more := match r.more with
    | some token => Tuple.toTagged token
    | none => .null
  .object [("columns", namesToJson r.columns), ("rows", .array (r.rows.map rowToJson)),
    ("more", more)]
where
  /-- The JSON form of a row. -/
  rowToJson (row : Row) : Json :=
    .object [("block_index", .integer row.block.toNat), ("present", .bool row.present),
      ("values", Tuple.toTagged row.values)]

end Response

/-- The row of a document. -/
def Row.ofDocument? (d : Json.Document) : Option Row :=
  match d.fields? [.required "block_index", .required "present", .required "values"] with
  | some [some block, some present, some values] => do
    return ⟨← Value.uint64? block, ← present.bool?, ← Tuple.ofDocument? values⟩
  | _ => none

namespace Response

/-- The response of a document. An object may leave out the token. -/
def ofDocument? (d : Json.Document) : Option Response :=
  match d.fields? [.required "columns", .required "rows", ⟨"more", .inObject⟩] with
  | some [some columns, some rows, more] => do
    let more ← match more with
      | some d => d.nullable? Tuple.ofDocument?
      | none => some none
    return ⟨← columns.list? Json.Document.string?, ← rows.list? Row.ofDocument?, more⟩
  | _ => none

/-- The response of a JSON text. -/
def ofText? (text : String) : Option Response := (Json.Document.ofText? text).bind ofDocument?

/-- The continuation token of a JSON text. -/
def tokenOfText (text : String) : Except Error Tuple :=
  match (Json.Document.ofText? text).bind Tuple.ofDocument? with
  | some token => .ok token
  | none => .error .invalidToken

end Response
end Chronicle
