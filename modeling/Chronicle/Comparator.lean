import Chronicle.Value.Basic

/-!
# Ordering of tuples

Tuples are compared field by field, each field in its own direction, and a
proper prefix comes first. A field without a direction ascends.
-/

namespace Chronicle

/-- The direction in which a field is ordered. -/
inductive Direction where
  /-- Smallest value first. -/
  | asc
  /-- Largest value first. -/
  | desc
  deriving DecidableEq, Repr, Inhabited

/-- The outcome of a comparison, seen in a direction. -/
def Direction.apply : Direction → Ordering → Ordering
  | asc, o => o
  | desc, o => o.swap

/-- An order of tuples. -/
structure Comparator where
  /-- The direction of each field. -/
  directions : List Direction
  deriving DecidableEq, Repr

namespace Comparator

/-- The number of fields with a direction. -/
def arity (c : Comparator) : Nat := c.directions.length

/-- Compare by a rule for the elements at a position, from a position on. -/
def compareFrom (rule : Nat → α → α → Ordering) (position : Nat) :
    List Direction → List α → List α → Ordering
  | _, [], [] => .eq
  | _, [], _ :: _ => .lt
  | _, _ :: _, [] => .gt
  | directions, x :: xs, y :: ys =>
    ((directions.headD .asc).apply (rule position x y)).then
      (compareFrom rule (position + 1) directions.tail xs ys)

/-- Compare two tuples. -/
def compare [Ord α] (c : Comparator) (a b : List α) : Ordering :=
  compareFrom (fun _ x y => Ord.compare x y) 0 c.directions a b

/-- Compare two tuples by what each element is projected to. -/
def compareBy [Ord β] (c : Comparator) (project : Nat → α → β) (a b : List α) : Ordering :=
  compareFrom (fun position x y => Ord.compare (project position x) (project position y)) 0
    c.directions a b

/-- Whether each tuple is smaller than its successor. -/
def isStrictlyAscending [Ord α] (c : Comparator) : List (List α) → Bool
  | a :: b :: rest => c.compare a b == .lt && isStrictlyAscending c (b :: rest)
  | _ => true

end Comparator
end Chronicle
