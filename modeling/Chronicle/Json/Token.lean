import Chronicle.Json.Numeral

/-!
# Tokens of a JSON text

A JSON text is cut into tokens by one pass over its characters. A quoted token
keeps escaped code units as numbers, because half of a surrogate pair is
harmless in a text that nobody reads.
-/

namespace Chronicle.Json

/-- One element of a quoted text. -/
inductive Piece where
  /-- A character, written as itself or by a short escape. -/
  | char (c : Char)
  /-- A code unit, written by its four hexadecimal digits. -/
  | unit (code : Nat)
  deriving DecidableEq, Repr

/-- Whether a code unit starts a surrogate pair. -/
def leads (code : Nat) : Bool := 0xD800 ≤ code ∧ code ≤ 0xDBFF

/-- Whether a code unit ends a surrogate pair. -/
def trails (code : Nat) : Bool := 0xDC00 ≤ code ∧ code ≤ 0xDFFF

/-- The characters of a quoted text, none if half of a surrogate pair stands
alone. -/
def characters? : List Piece → Option (List Char)
  | [] => some []
  | .char c :: rest => (characters? rest).map (c :: ·)
  | .unit a :: .unit b :: rest =>
    if leads a then
      if trails b then
        (characters? rest).map (Char.ofNat (0x10000 + (a - 0xD800) * 1024 + (b - 0xDC00)) :: ·)
      else none
    else if trails a then none
    else (characters? (.unit b :: rest)).map (Char.ofNat a :: ·)
  | .unit a :: rest =>
    if leads a || trails a then none else (characters? rest).map (Char.ofNat a :: ·)

/-- A token. -/
inductive Token where
  /-- An opening square bracket. -/
  | openArray
  /-- A closing square bracket. -/
  | closeArray
  /-- An opening brace. -/
  | openObject
  /-- A closing brace. -/
  | closeObject
  /-- A comma. -/
  | comma
  /-- A colon. -/
  | colon
  /-- The null literal. -/
  | null
  /-- A truth literal. -/
  | bool (b : Bool)
  /-- A number. -/
  | number (n : Numeral)
  /-- A quoted text, without a content if it has no characters. -/
  | string (content : Option String)
  deriving DecidableEq, Repr

namespace Token

/-- What has been read of the token in progress, last character first. -/
inductive State where
  /-- No token is in progress. -/
  | between
  /-- A literal or number is in progress. -/
  | bare (read : List Char)
  /-- A quoted text is in progress. -/
  | quoted (read : List Piece)
  /-- A backslash was the last character. -/
  | escaped (read : List Piece)
  /-- The digits of a code unit are in progress. -/
  | coded (read : List Piece) (code : Nat) (missing : Nat)
  deriving DecidableEq, Repr

/-- Whether a character belongs to literals and numbers. -/
def isBare (c : Char) : Bool := c.isAlphanum || c == '+' || c == '-' || c == '.'

/-- The literal or number that a run of characters spells. -/
def ofBare? (text : List Char) : Option Token :=
  if text = ['n', 'u', 'l', 'l'] then some .null
  else if text = ['t', 'r', 'u', 'e'] then some (.bool true)
  else if text = ['f', 'a', 'l', 's', 'e'] then some (.bool false)
  else (Numeral.ofChars? text).map .number

/-- The token of a quoted text. -/
def ofPieces (pieces : List Piece) : Token :=
  .string ((characters? pieces).map String.ofList)

/-- The character that a short escape stands for. -/
def ofEscape? : Char → Option Char
  | '"' => some '"'
  | '\\' => some '\\'
  | '/' => some '/'
  | 'b' => some '\x08'
  | 'f' => some '\x0c'
  | 'n' => some '\n'
  | 'r' => some '\r'
  | 't' => some '\t'
  | _ => none

/-- What a character does where no token is in progress. -/
def start (c : Char) : Option (List Token × State) :=
  match c with
  | ' ' | '\n' | '\t' | '\r' => some ([], .between)
  | '[' => some ([.openArray], .between)
  | ']' => some ([.closeArray], .between)
  | '\x7b' => some ([.openObject], .between)
  | '\x7d' => some ([.closeObject], .between)
  | ',' => some ([.comma], .between)
  | ':' => some ([.colon], .between)
  | '"' => some ([], .quoted [])
  | c => if isBare c then some ([], .bare [c]) else none

/-- The tokens that a character completes, and the state after it. Control
characters may not stand in a quoted text. -/
def step : State → Char → Option (List Token × State)
  | .between, c => start c
  | .bare read, c =>
    if isBare c then some ([], .bare (c :: read))
    else do
      let token ← ofBare? read.reverse
      let (tokens, state) ← start c
      return (token :: tokens, state)
  | .quoted read, c =>
    if c = '"' then some ([ofPieces read.reverse], .between)
    else if c = '\\' then some ([], .escaped read)
    else if c.toNat < 32 then none
    else some ([], .quoted (.char c :: read))
  | .escaped read, c =>
    if c = 'u' then some ([], .coded read 0 3)
    else (ofEscape? c).map fun plain => ([], .quoted (.char plain :: read))
  | .coded read code missing, c => do
    let digit ← Text.Hex.digitValue c
    let code := code * 16 + digit
    match missing with
    | 0 => return ([], .quoted (.unit code :: read))
    | missing + 1 => return ([], .coded read code missing)

/-- The tokens that the end of the text completes. -/
def finish : State → Option (List Token)
  | .between => some []
  | .bare read => (ofBare? read.reverse).map ([·])
  | _ => none

/-- The tokens of a text that continues a state. -/
def scanFrom : State → List Char → Option (List Token)
  | state, [] => finish state
  | state, c :: rest => do
    let (tokens, next) ← step state c
    let more ← scanFrom next rest
    return tokens ++ more

/-- The tokens of a text. -/
def scan (text : List Char) : Option (List Token) := scanFrom .between text

end Token
end Chronicle.Json
