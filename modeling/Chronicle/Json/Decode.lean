import Chronicle.Json.Document

/-!
# Reading typed data from documents

Data with fixed fields is read from an object or from an array that lists the
fields in order. Unknown members of an object are ignored with all they
contain, a repeated field is refused. A choice between cases is a name, or an
object with one member named for the case.
-/

namespace Chronicle.Json.Document

/-- The truth value of a document. -/
def bool? : Document → Option Bool
  | .bool b => some b
  | _ => none

/-- The text of a document. -/
def string? : Document → Option String
  | .string content => content
  | _ => none

/-- The integer of a document that lies in a range. -/
def integer? (low high : Int) : Document → Option Int
  | .number n =>
    match n.value? with
    | some (.integer n) => if low ≤ n ∧ n ≤ high then some n else none
    | _ => none
  | _ => none

/-- A natural number below a bound. -/
def natural? (bound : Nat) (d : Document) : Option Nat :=
  (d.integer? 0 (bound - 1)).map Int.toNat

/-- The float of a document. Integers are rounded. -/
def float? : Document → Option Float64
  | .number n =>
    match n.value? with
    | some (.float x) => some x
    | some (.integer n) => some (Float64.ofInt n)
    | _ => none
  | _ => none

/-- The list of an array's elements, each read by `read`. -/
def list? (read : Document → Option α) : Document → Option (List α)
  | .array elements => elements.mapM read
  | _ => none

/-- A value that may be written as null. -/
def nullable? (read : Document → Option α) : Document → Option (Option α)
  | .null => some none
  | d => (read d).map some

/-- Where a field may be left out. -/
inductive Absence where
  /-- Nowhere. -/
  | never
  /-- In an object. -/
  | inObject
  /-- In an object, and at the end of an array. -/
  | anywhere
  deriving DecidableEq, Repr

/-- A field of data with fixed fields. -/
structure Slot where
  /-- The member name. -/
  name : String
  /-- Where it may be left out. -/
  absence : Absence
  deriving DecidableEq, Repr

/-- A field that must be given. -/
def Slot.required (name : String) : Slot := ⟨name, .never⟩

/-- A field that has a value if it is not given. -/
def Slot.defaulted (name : String) : Slot := ⟨name, .anywhere⟩

/-- The documents of fields listed in order. -/
def inOrder? : List Slot → List Document → Option (List (Option Document))
  | [], [] => some []
  | [], _ :: _ => none
  | slot :: slots, [] =>
    if slot.absence = .anywhere then (inOrder? slots []).map (none :: ·) else none
  | _ :: slots, d :: rest => (inOrder? slots rest).map (some d :: ·)

/-- The document of a field among named members. -/
def ofMembers? (members : List (String × Document)) (slot : Slot) : Option (Option Document) :=
  match members.filter (·.1 = slot.name) with
  | [] => if slot.absence = .never then none else some none
  | [(_, d)] => some (some d)
  | _ => none

/-- The members of an object, if every name is a text. -/
def named? (members : List (Option String × Document)) : Option (List (String × Document)) :=
  members.mapM fun (name, d) => name.map (·, d)

/-- The documents of the fields of a record, in the order of the fields. -/
def fields? (slots : List Slot) : Document → Option (List (Option Document))
  | .object members => do
    let members ← named? members
    slots.mapM (ofMembers? members)
  | .array elements => inOrder? slots elements
  | _ => none

/-- The name of a case, and its content if one is written. -/
def case? : Document → Option (String × Option Document)
  | .string content => content.map (·, none)
  | .object [(name, d)] => name.map (·, some d)
  | _ => none

/-- The name of a case without content. -/
def caseName? (d : Document) : Option String :=
  match d.case? with
  | some (name, none) => some name
  | some (name, some .null) => some name
  | _ => none

end Chronicle.Json.Document
