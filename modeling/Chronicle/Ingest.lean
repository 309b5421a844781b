import Chronicle.Database
import Chronicle.Text.Blank

/-!
# Ingestion

Facts are ingested from text with one JSON record per line. Lines are
processed in order up to the first that fails, whose number is reported, and
what the lines before it did stays.
-/

namespace Chronicle

/-- Why a command failed. -/
inductive CommandError where
  /-- The database refused. -/
  | database (cause : Error)
  /-- A text is no JSON, or not of the expected shape. -/
  | json
  /-- Arguments do not fit together. -/
  | argument (cause : String)
  /-- A file cannot be read. -/
  | file (path : String)
  /-- A line of the input failed. -/
  | line (number : Nat) (cause : CommandError)
  deriving Repr

/-- The full text of a failed command. -/
def CommandError.message : CommandError → String
  | database cause => cause.message
  | json => "invalid json: malformed input"
  | argument cause => "invalid argument: " ++ cause
  | file path => "io error: cannot read " ++ path
  | line number cause => "line " ++ toString number ++ ": " ++ cause.message

/-- A fact as it is written in a line. -/
structure FactRecord where
  /-- The table. -/
  table : String
  /-- The block. -/
  block : UInt64
  /-- Whether the identity has a payload. -/
  present : Bool
  /-- The values by field name. -/
  fields : SortedMap String Json

namespace FactRecord

/-- The members of an object, each with a value. A record is one container
deep when its fields are read. -/
def members? (d : Json.Document) : Option (SortedMap String Json) :=
  match d with
  | .object members =>
    (Json.Document.memberValues? (Json.Document.maxDepth - 2) members).map SortedMap.ofList
  | _ => none

/-- The record of a document. -/
def ofDocument? (d : Json.Document) : Option FactRecord :=
  match d.fields? [.required "table", .required "block_index", .defaulted "present",
      .defaulted "fields"] with
  | some [some table, some block, present, fields] => do
    let present ← match present with
      | some d => d.bool?
      | none => some true
    let fields ← match fields with
      | some d => members? d
      | none => some .empty
    return ⟨← table.string?, ← Value.uint64? block, present, fields⟩
  | _ => none

/-- The record of a JSON text. -/
def ofText (text : List Char) : Except CommandError FactRecord :=
  match ((Json.Token.scan text).bind Json.Document.ofTokens?).bind ofDocument? with
  | some r => .ok r
  | none => .error .json

/-- The fact that a record states about a table. -/
def toFact (t : Table) (r : FactRecord) : Except Error Fact := do
  let (identity, payload) ← t.valuesOfObject r.fields
  return if r.present then .live identity r.block payload else .tombstone identity r.block

/-- The fact of a record has the identity of the fields, the block and the
presence that are written, and the payload of the fields if it is present. -/
theorem toFact_eq (t : Table) (r : FactRecord) :
    r.toFact t = (t.valuesOfObject r.fields).map fun values =>
      ⟨values.1, r.block, r.present, if r.present then values.2 else []⟩ := by
  rw [toFact]
  cases t.valuesOfObject r.fields with
  | error e => rfl
  | ok values => cases hpresent : r.present <;> simp [bind, Except.bind, Except.map, pure,
      Except.pure, Fact.live, Fact.tombstone]

end FactRecord

/-- What a run of ingestion did. -/
structure IngestStats where
  /-- The lines that were not blank. -/
  lines : Nat
  /-- The versions stored. -/
  appended : Nat
  /-- The versions that were stored before. -/
  unchanged : Nat
  deriving DecidableEq, Repr

namespace IngestStats

/-- Nothing done. -/
def zero : IngestStats := ⟨0, 0, 0⟩

/-- One more line. -/
def count (s : IngestStats) : AppendOutcome → IngestStats
  | .appended => { s with lines := s.lines + 1, appended := s.appended + 1 }
  | .unchanged => { s with lines := s.lines + 1, unchanged := s.unchanged + 1 }

end IngestStats

/-- The lines of a text. A newline ends a line, and the text after the last
newline is a line too. -/
def linesOf (text : List Char) : List (List Char) :=
  text.foldr (fun c lines =>
    if c = '\n' then [] :: lines
    else match lines with
      | line :: rest => (c :: line) :: rest
      | [] => [[c]]) [[]]

namespace Database

/-- The store of a table. The stores that were used before are at hand. -/
def storeAtHand (db : Database) (used : SortedMap String FactStore) (table : String) :
    Except Error (FactStore × SortedMap String FactStore) :=
  match used.get? table with
  | some s => .ok (s, used)
  | none => (db.store table).map fun s => (s, used.insert table s)

/-- Append the record of one line. -/
def ingestLine (db : Database) (used : SortedMap String FactStore) (line : List Char) :
    Database × Except CommandError (AppendOutcome × SortedMap String FactStore) :=
  match FactRecord.ofText line with
  | .error e => (db, .error e)
  | .ok record =>
    match db.storeAtHand used record.table with
    | .error e => (db, .error (.database e))
    | .ok (s, used) =>
      match record.toFact s.table with
      | .error e => (db, .error (.database e))
      | .ok f =>
        match db.append record.table f with
        | (db, .error e) => (db, .error (.database e))
        | (db, .ok outcome) => (db, .ok (outcome, used))

/-- Process lines, the first of them with the given number. -/
def ingestLines (db : Database) (used : SortedMap String FactStore) (number : Nat)
    (stats : IngestStats) : List (List Char) → Database × Except CommandError IngestStats
  | [] => (db, .ok stats)
  | line :: rest =>
    match Text.trim line with
    | [] => db.ingestLines used (number + 1) stats rest
    | record =>
      match db.ingestLine used record with
      | (db, .error e) => (db, .error (.line number e))
      | (db, .ok (outcome, used)) => db.ingestLines used (number + 1) (stats.count outcome) rest

/-- Ingest a text. -/
def ingest (db : Database) (text : String) : Database × Except CommandError IngestStats :=
  db.ingestLines .empty 1 .zero (linesOf text.toList)

end Database
end Chronicle
