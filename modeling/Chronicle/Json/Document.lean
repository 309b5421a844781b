import Chronicle.Json.Token

/-!
# JSON documents

A document is a JSON text with its structure known and its leaves unread. A
numeral may exceed every float and a quoted text may have no characters, as
long as nobody asks for their value. `ofTokens?` builds the document of a
token sequence with a stack of open containers, and `toJson?` reads all leaves
within a limit of nesting.
-/

namespace Chronicle.Json

/-- The structure of a JSON text. -/
inductive Document where
  /-- The null literal. -/
  | null
  /-- A truth literal. -/
  | bool (b : Bool)
  /-- A number as written. -/
  | number (n : Numeral)
  /-- A quoted text, without a content if it has no characters. -/
  | string (content : Option String)
  /-- A sequence of documents. -/
  | array (elements : List Document)
  /-- Members as written, with repetitions. -/
  | object (members : List (Option String × Document))
  deriving Inhabited

namespace Document

/-- A container that waits for the document now in progress. -/
inductive Container where
  /-- An array with its earlier elements, last first. -/
  | array (earlier : List Document)
  /-- An object with its earlier members, last first, and the name of the
  member in progress. -/
  | object (earlier : List (Option String × Document)) (name : Option String)

/-- What may come next, within the containers that are open outside. -/
inductive Place where
  /-- A document must come. -/
  | value (outer : List Container)
  /-- An array has just been opened. -/
  | arrayStart (outer : List Container)
  /-- An element is complete. -/
  | arrayNext (outer : List Container) (earlier : List Document)
  /-- An object has just been opened. -/
  | objectStart (outer : List Container)
  /-- A member name must come. -/
  | name (outer : List Container) (earlier : List (Option String × Document))
  /-- A colon must come. -/
  | colon (outer : List Container) (earlier : List (Option String × Document))
      (name : Option String)
  /-- A member is complete. -/
  | objectNext (outer : List Container) (earlier : List (Option String × Document))
  /-- The document is complete. -/
  | finished (document : Document)

/-- Put a complete document into the innermost open container. -/
def close (d : Document) : List Container → Place
  | [] => .finished d
  | .array earlier :: outer => .arrayNext outer (d :: earlier)
  | .object earlier name :: outer => .objectNext outer ((name, d) :: earlier)

/-- Where a token leads that begins a document. -/
def begin (outer : List Container) : Token → Option Place
  | .null => some (close .null outer)
  | .bool b => some (close (.bool b) outer)
  | .number n => some (close (.number n) outer)
  | .string content => some (close (.string content) outer)
  | .openArray => some (.arrayStart outer)
  | .openObject => some (.objectStart outer)
  | _ => none

/-- Where a token leads, none if it may not come. -/
def advance : Place → Token → Option Place
  | .value outer, token => begin outer token
  | .arrayStart outer, .closeArray => some (close (.array []) outer)
  | .arrayStart outer, token => begin (.array [] :: outer) token
  | .arrayNext outer earlier, .comma => some (.value (.array earlier :: outer))
  | .arrayNext outer earlier, .closeArray => some (close (.array earlier.reverse) outer)
  | .objectStart outer, .closeObject => some (close (.object []) outer)
  | .objectStart outer, .string name => some (.colon outer [] name)
  | .name outer earlier, .string name => some (.colon outer earlier name)
  | .colon outer earlier name, .colon => some (.value (.object earlier name :: outer))
  | .objectNext outer earlier, .comma => some (.name outer earlier)
  | .objectNext outer earlier, .closeObject => some (close (.object earlier.reverse) outer)
  | _, _ => none

/-- The document of a token sequence. -/
def ofTokens? (tokens : List Token) : Option Document :=
  match tokens.foldlM advance (.value []) with
  | some (.finished d) => some d
  | _ => none

/-- The document of a text. -/
def ofText? (text : String) : Option Document :=
  (Token.scan text.toList).bind ofTokens?

mutual

/-- The JSON value of a document that nests containers at most `depth` deep.
Every leaf must have a value. Objects are sorted, the last of several members
of one name staying. -/
def toJson? (depth : Nat) : Document → Option Json
  | .null => some .null
  | .bool b => some (.bool b)
  | .number n => n.value?
  | .string content => content.map .string
  | .array elements =>
    match depth with
    | 0 => none
    | depth + 1 => (elementValues? depth elements).map .array
  | .object members =>
    match depth with
    | 0 => none
    | depth + 1 => (memberValues? depth members).map .sorted

/-- The values of the elements of an array. -/
def elementValues? (depth : Nat) : List Document → Option (List Json)
  | [] => some []
  | d :: rest => do
    let value ← toJson? depth d
    let values ← elementValues? depth rest
    return value :: values

/-- The values of the members of an object. -/
def memberValues? (depth : Nat) :
    List (Option String × Document) → Option (List (String × Json))
  | [] => some []
  | (name, d) :: rest => do
    let name ← name
    let value ← toJson? depth d
    let values ← memberValues? depth rest
    return (name, value) :: values

end

/-- The deepest nesting of containers in a text that is read as a value. -/
def maxDepth : Nat := 127

end Document

/-- The value of a JSON text. -/
def ofText? (text : String) : Option Json :=
  (Document.ofText? text).bind (Document.toJson? Document.maxDepth)

end Chronicle.Json
