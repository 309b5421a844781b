import Chronicle.Format.Report
import Chronicle.Paging
import Chronicle.Storage.Settings

/-!
# The command line

Arguments are options, a command, and the options of the command. A run opens
a data directory, loads a configuration and carries out the command. What a
run reads and leaves behind is a workspace of files and data directories, so a
run is a function from a workspace and arguments to a workspace and an
outcome.
-/

namespace Chronicle.CommandLine

/-- What to do with the database. -/
inductive Command where
  /-- Append the facts of a file. -/
  | ingest (file : String)
  /-- Run a query. -/
  | query (name : String) (maxBlock : Option UInt64) (first last : String) (maxResults : UInt32)
      (all : Bool)
  /-- Show the head block, after setting it if a block is given. -/
  | head (set : Option UInt64)
  /-- List the queries. -/
  | queries
  deriving Repr

/-- A checked command line. -/
structure Invocation where
  /-- The data directory. -/
  dataPath : String
  /-- The configuration file. -/
  configPath : String
  /-- The megabytes that may be held in memory. -/
  cacheMegabytes : UInt64
  /-- The form of the output. -/
  format : ReportFormat
  /-- The command. -/
  command : Command
  deriving Repr

/-- An option of the command line. -/
structure OptionSpec where
  /-- The name after two dashes. -/
  long : String
  /-- The letter after one dash. -/
  short : Option Char
  /-- Whether a value follows. -/
  takesValue : Bool

/-- Options with their values, and the other arguments in order. -/
structure Arguments where
  /-- The given options. A flag has an empty value. -/
  options : List (String × String)
  /-- The other arguments. -/
  positional : List String

/-- The value of a given option. -/
def Arguments.value? (a : Arguments) (name : String) : Option String :=
  (a.options.find? (·.1 == name)).map (·.2)

/-- Add a value, unless the option was given before. -/
def Arguments.add (a : Arguments) (name value : String) : Option Arguments :=
  if (a.value? name).isSome then none else some { a with options := a.options ++ [(name, value)] }

/-- Whether an argument can only be an option. -/
def isOption (argument : String) : Bool := argument.startsWith "-" && argument != "-"

/-- What an argument that starts with a dash says. It names an option, and may
hold the option's value. A long option's value follows an equals sign, which a
short one may leave out. -/
def option? (specs : List OptionSpec) (argument : String) : Option (OptionSpec × Option String) :=
  match argument.toList with
  | '-' :: '-' :: text =>
    let name := String.ofList (text.takeWhile (· != '='))
    let value := match text.dropWhile (· != '=') with
      | [] => none
      | _ :: value => some (String.ofList value)
    (specs.find? (·.long == name)).map (·, value)
  | '-' :: letter :: rest =>
    let value := match rest with
      | [] => none
      | '=' :: value => some (String.ofList value)
      | value => some (String.ofList value)
    (specs.find? (·.short == some letter)).map (·, value)
  | _ => none

/-- Read arguments up to the end, or up to the first that is not an option if
`stopEarly` is set. The remaining arguments are returned too. -/
def readArguments (specs : List OptionSpec) (stopEarly : Bool) (a : Arguments) :
    List String → Option (Arguments × List String)
  | [] => some (a, [])
  | argument :: rest =>
    if argument = "--" then
      if stopEarly then none else some ({ a with positional := a.positional ++ rest }, [])
    else if isOption argument then
      match option? specs argument with
      | none => none
      | some (spec, value) =>
        if !spec.takesValue then
          if value.isSome then none
          else (a.add spec.long "").bind fun a => readArguments specs stopEarly a rest
        else match value, rest with
          | some value, rest =>
            (a.add spec.long value).bind fun a => readArguments specs stopEarly a rest
          | none, value :: rest =>
            if isOption value then none
            else (a.add spec.long value).bind fun a => readArguments specs stopEarly a rest
          | none, [] => none
    else if stopEarly then some (a, argument :: rest)
    else readArguments specs stopEarly { a with positional := a.positional ++ [argument] } rest

/-- The options before the command. -/
def globalOptions : List OptionSpec :=
  [⟨"data-path", some 'd', true⟩, ⟨"config", some 'c', true⟩, ⟨"cache-size-mb", none, true⟩,
    ⟨"format", none, true⟩]

/-- The options of the query command. -/
def queryOptions : List OptionSpec :=
  [⟨"max-block", none, true⟩, ⟨"first", none, true⟩, ⟨"last", none, true⟩,
    ⟨"max-results", none, true⟩, ⟨"all", none, false⟩]

/-- The options of the head command. -/
def headOptions : List OptionSpec := [⟨"set", none, true⟩]

/-- A path, which is not empty. -/
def path? (text : String) : Option String := if text.isEmpty then none else some text

/-- An unsigned integer of 64 bits. -/
def word? (text : String) : Option UInt64 :=
  ((Text.natural? text).filter (· < UInt64.size)).map UInt64.ofNat

/-- An unsigned integer of 32 bits. -/
def half? (text : String) : Option UInt32 :=
  let n := (Text.integer? text).filter fun (n : Int) => 0 ≤ n ∧ n < UInt32.size
  n.map fun n => UInt32.ofNat n.toNat

/-- A value that is read if it is given. -/
def optional? (read : String → Option α) : Option String → Option (Option α)
  | none => some none
  | some text => (read text).map some

/-- The rows of a page unless the command line says otherwise. -/
def defaultMaxResults : UInt32 := 100

/-- The megabytes held in memory unless the command line says otherwise. -/
def defaultCacheMegabytes : UInt64 := 64

/-- The command that a name and its arguments spell. -/
def Command.ofArguments? (name : String) (arguments : List String) : Option Command :=
  let read (specs : List OptionSpec) : Option Arguments :=
    (readArguments specs false ⟨[], []⟩ arguments).map (·.1)
  match name with
  | "ingest" => do
    match (← read []).positional with
    | [file] => return .ingest (← path? file)
    | _ => none
  | "query" => do
    let a ← read queryOptions
    match a.positional with
    | [name] =>
      let maxBlock ← optional? word? (a.value? "max-block")
      let maxResults ← optional? half? (a.value? "max-results")
      return .query name maxBlock (← a.value? "first") (← a.value? "last")
        (maxResults.getD defaultMaxResults) (a.value? "all").isSome
    | _ => none
  | "head" => do
    let a ← read headOptions
    if a.positional.isEmpty then return .head (← optional? word? (a.value? "set")) else none
  | "queries" => do
    if (← read []).positional.isEmpty then return .queries else none
  | _ => none

/-- The invocation that arguments spell. -/
def Invocation.ofArguments? (arguments : List String) : Option Invocation := do
  match ← readArguments globalOptions true ⟨[], []⟩ arguments with
  | (a, name :: rest) =>
    let dataPath ← optional? path? (a.value? "data-path")
    let configPath ← path? (← a.value? "config")
    let cache ← optional? word? (a.value? "cache-size-mb")
    let format ← optional? ReportFormat.ofName? (a.value? "format")
    let command ← Command.ofArguments? name rest
    return ⟨dataPath.getD StorageSettings.default.path, configPath,
      cache.getD defaultCacheMegabytes, format.getD .table, command⟩
  | (_, []) => none

/-- The storage settings of an invocation. The bytes of memory that may be held
fit 64 bits. -/
def Invocation.settings (i : Invocation) : StorageSettings :=
  { StorageSettings.atPath i.dataPath with
    cacheBytes := min (i.cacheMegabytes.toNat * (1024 * 1024)) (UInt64.size - 1) }

/-- Carry out a command. The result is the database as it is left, the texts
printed, and how the command ends. Files are read by `readFile`. -/
def Command.run (readFile : String → Option String) (format : ReportFormat) (db : Database) :
    Command → Database × List String × Except CommandError Unit
  | .ingest file =>
    match readFile file with
    | none => (db, [], .error (.file file))
    | some text =>
      match db.ingest text with
      | (db, .error e) => (db, [], .error e)
      | (db, .ok stats) => (db, [Report.ingest format stats db.headBlock], .ok ())
  | .query name maxBlock first last maxResults all =>
    match db.boundsOfTexts name first last with
    | .error e => (db, [], .error e)
    | .ok (first, last) =>
      let request := ((Request.ofQuery name).atBlock
        (maxBlock.getD 18446744073709551615)).withRange first last |>.withMaxResults maxResults
      let (pages, result) := db.runQuery request all
      (db, pages.map (Report.response format), result)
  | .head set =>
    let db := match set with
      | some block => db.setHeadBlock block
      | none => db
    (db, [Report.headBlock format db.headBlock], .ok ())
  | .queries => (db, [Report.queries format db.queries.keys], .ok ())

/-- Load the configuration of an invocation and carry out its command. -/
def Invocation.run (readFile : String → Option String) (i : Invocation) (d : Directory) :
    Directory × List String × Except CommandError Unit :=
  let db := Database.ofDirectory d
  match readFile i.configPath with
  | none => (d, [], .error (.file i.configPath))
  | some text =>
    match Configuration.ofText text with
    | .error e => (d, [], .error (.database e))
    | .ok configuration =>
      match db.loadConfiguration configuration with
      | (db, .error e) => (db.directory, [], .error (.database e))
      | (db, .ok _) =>
        let (db, printed, result) := i.command.run readFile i.format db
        (db.directory, printed, result)

/-- Files by path and data directories by path. -/
structure Workspace where
  /-- The contents of the files. -/
  files : SortedMap String String
  /-- The data directories. -/
  directories : SortedMap String Directory

/-- What a run prints, and its exit code. -/
structure Outcome where
  /-- The exit code. -/
  code : Nat
  /-- The standard output. -/
  stdout : String
  /-- The standard error output. -/
  stderr : String
  deriving DecidableEq, Repr

/-- What is said of arguments that spell no invocation. -/
def usage : String :=
  "Usage: chronicle --config FILE [--data-path DIR] [--cache-size-mb N] [--format table|json]\n" ++
  "                 ingest FILE | head [--set N] | queries |\n" ++
  "                 query NAME --first JSON --last JSON [--max-block N] [--max-results N] [--all]\n"

/-- The outcome of a run that printed some texts. -/
def Outcome.ofResult (printed : List String) : Except CommandError Unit → Outcome
  | .ok _ => ⟨0, String.join (printed.map (· ++ "\n")), ""⟩
  | .error e => ⟨1, String.join (printed.map (· ++ "\n")), "Error: " ++ e.message ++ "\n"⟩

/-- The parts of a path that lead somewhere. -/
def normalize (path : String) : String :=
  let root := if path.startsWith "/" then "/" else ""
  root ++ "/".intercalate ((path.splitOn "/").filter fun part => part ≠ "" ∧ part ≠ ".")

/-- The content of the file of a path. A path whose last part is empty or made
of dots names a directory. -/
def Workspace.readFile (w : Workspace) (path : String) : Option String :=
  if (path.splitOn "/").getLast?.any fun part => part ∈ ["", ".", ".."] then none
  else w.files.get? (normalize path)

/-- One run in a workspace. -/
def Workspace.run (w : Workspace) (arguments : List String) : Workspace × Outcome :=
  match Invocation.ofArguments? arguments with
  | none => (w, ⟨2, "", usage⟩)
  | some i =>
    let path := normalize i.dataPath
    let directory := (w.directories.get? path).getD .empty
    let (directory, printed, result) := i.run w.readFile directory
    ({ w with directories := w.directories.insert path directory }, .ofResult printed result)

end Chronicle.CommandLine
