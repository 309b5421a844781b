import Chronicle.Format.Grid
import Chronicle.Ingest

/-!
# Reports

How results are shown, as a grid for reading or as JSON for programs. JSON
objects have sorted members, and of two columns with one label the later is
shown.
-/

namespace Chronicle

/-- The form of a report. -/
inductive ReportFormat where
  /-- A grid. -/
  | table
  /-- A JSON text. -/
  | json
  deriving DecidableEq, Repr

namespace ReportFormat

/-- The form of a name. -/
def ofName? : String → Option ReportFormat
  | "table" => some table
  | "json" => some json
  | _ => none

end ReportFormat

namespace Report

/-- The bytes of a value that are shown in full. -/
def maxShownBytes : Nat := 32

/-- A value in a cell. Long byte strings are cut. -/
def cell : Value → String
  | .bytes b =>
    if b.length > maxShownBytes then
      Text.Hex.encode (b.take 16) ++ ".. (" ++ toString b.length ++ " bytes)"
    else Text.Hex.encode b
  | v => v.display

/-- The rows of a response as a grid. -/
def grid (r : Response) : String :=
  Grid.text (["block_index", "present"] ++ r.columns) (r.rows.map fun row =>
    [toString row.block.toNat, if row.present then "true" else "false"] ++ row.values.map cell)

/-- A row as a JSON object. -/
def rowObject (columns : List String) (row : Row) : Json :=
  .sorted ([("block_index", .integer row.block.toNat), ("present", .bool row.present)] ++
    columns.zip (row.values.map Value.toJson))

/-- A page of results. -/
def response : ReportFormat → Response → String
  | .table, r =>
    let more := match r.more with
      | some token => "\nmore: " ++ (Tuple.toJson token).text
      | none => ""
    grid r ++ "\n" ++ toString r.rows.length ++ " row(s)" ++ more
  | .json, r =>
    let more := match r.more with
      | some token => Tuple.toJson token
      | none => .null
    (Json.object [("more", more), ("rows", .array (r.rows.map (rowObject r.columns)))]).text

/-- What a run of ingestion did. -/
def ingest : ReportFormat → IngestStats → UInt64 → String
  | .table, s, head =>
    toString s.lines ++ " line(s): " ++ toString s.appended ++ " appended, "
      ++ toString s.unchanged ++ " unchanged; head block " ++ toString head.toNat
  | .json, s, head =>
    (Json.object [("appended", .integer s.appended), ("head_block", .integer head.toNat),
      ("lines", .integer s.lines), ("unchanged", .integer s.unchanged)]).text

/-- The head block. -/
def headBlock : ReportFormat → UInt64 → String
  | .table, head => "head block " ++ toString head.toNat
  | .json, head => (Json.object [("head_block", .integer head.toNat)]).text

/-- The names of the queries. -/
def queries : ReportFormat → List String → String
  | .table, names => Grid.text ["Query"] (names.map ([·]))
  | .json, names => (namesToJson names).text

end Report
end Chronicle
