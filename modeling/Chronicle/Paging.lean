import Chronicle.Ingest

/-!
# Following pages

A run of a query answers a request and, if all rows are wanted, the requests
that its continuation tokens ask for. Each page is given out as it is made, so
pages before a failure are not lost.
-/

namespace Chronicle.Database

/-- The first pages of a query, at most so many. -/
def firstPages (db : Database) : (limit : Nat) → Request → Except Error (List Response)
  | 0, _ => .ok []
  | limit + 1, r => do
    let response ← db.query r
    match response.more with
    | none => return [response]
    | some token => return response :: (← db.firstPages limit (r.resume token))

/-- A number of pages that a run which ends does not exceed. A page is
determined by its first bound, which is the given one or that of an identity
in the index. -/
def pageBound (db : Database) (query : String) : Nat :=
  match db.queries.find query with
  | .error _ => 1
  | .ok q =>
    match db.rangeSource q with
    | .error _ => 1
    | .ok source => (db.directory.indexTree source.layout.treeName).size + 1

/-- The pages of a run after some others, and the number of all of them unless
it fails. A token equal to the bound just used means that no row fits in a
page. -/
def followPages (db : Database) (all : Bool) :
    (fuel before : Nat) → Request → List Response × Except CommandError Nat
  | 0, _, _ => ([], .error (.database (.fault .endless)))
  | fuel + 1, before, r =>
    match db.query r with
    | .error e => ([], .error (.database e))
    | .ok response =>
      match response.more with
      | none => ([response], .ok (before + 1))
      | some token =>
        if all && token ≠ r.first then
          let (pages, result) := db.followPages all fuel (before + 1) (r.resume token)
          (response :: pages, result)
        else ([response], .ok (before + 1))

/-- Run a query for one page or for all, and count the pages. -/
def countPages (db : Database) (r : Request) (all : Bool) :
    List Response × Except CommandError Nat :=
  if all && r.maxResults = 0 then
    ([], .error (.argument "--all needs --max-results above zero"))
  else db.followPages all (db.pageBound r.query) 0 r

/-- Run a query for one page or for all. -/
def runQuery (db : Database) (r : Request) (all : Bool) :
    List Response × Except CommandError Unit :=
  let (pages, result) := db.countPages r all
  (pages, result.map fun _ => ())

/-- The two bounds of a query that JSON texts stand for. Both texts are read
before either is taken for a bound. -/
def boundsOfTexts (db : Database) (query first last : String) :
    Except CommandError (Tuple × Tuple) :=
  match Json.ofText? first, Json.ofText? last with
  | some lower, some upper => Except.mapError .database do
    return (← db.boundOfJson query lower, ← db.boundOfJson query upper)
  | _, _ => .error .json

end Chronicle.Database
