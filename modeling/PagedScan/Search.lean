import PagedScan.Fetch
import PagedScan.Query

/-!
# Searches

A search runs a list of queries on one cursor, one after the other, and answers
with a page for each. Every query puts the cursor where it begins, so what the
ones before it did to the cursor does not matter to it.

After each query the cursor is asked whether it has failed. The first failure
is kept, with the number of the query. What comes after it is up to the policy:
the queries that are left are run all the same, or they are left out and get
empty pages.
-/

namespace PagedScan

/-- A query that failed, by its number, and the error. -/
structure Failure where
  index : Nat
  error : Error
  deriving DecidableEq, Repr

/-- The pages of a search, one for each query, and the first failure. -/
structure Results where
  pages : List Page
  failure : Option Failure
  deriving DecidableEq, Repr

namespace Results

/-- The results of a search for nothing. -/
def empty : Results :=
  ⟨[], none⟩

instance : Inhabited Results := ⟨empty⟩

/-- How many pages there are. -/
def count (r : Results) : Nat :=
  r.pages.length

/-- Whether there is no page. -/
def isEmpty (r : Results) : Bool :=
  r.pages.isEmpty

/-- The page of a query, if there is such a query. -/
def get? (r : Results) (index : Nat) : Option Page :=
  r.pages[index]?

/-- The page of a query that is known to exist. -/
def page (r : Results) (index : Nat) : Except Misuse Page :=
  match r.get? index with
  | some p => .ok p
  | none => .error (.noPage r.count index)

/-- The error of the first failure. -/
def error? (r : Results) : Option Error :=
  r.failure.map Failure.error

/-- The number of the query that failed first. -/
def failedAt? (r : Results) : Option Nat :=
  r.failure.map Failure.index

/-- The results with the page of a query that came before them. -/
def cons (p : Page) (r : Results) : Results :=
  { r with pages := p :: r.pages }

/-- The results with the page of a query that came before them and failed. -/
def consFailed (p : Page) (f : Failure) (r : Results) : Results :=
  ⟨p :: r.pages, some f⟩

/-- Empty pages for so many queries. -/
def blank (settings : Settings) (queries : Nat) : Results :=
  ⟨List.replicate queries (Page.ofSize settings.pageSize), none⟩

end Results

namespace Query

variable {σ : Type} [Cursor σ]

/-- Runs one query, the one with number `index`. -/
def run (q : Query) (logging : Bool) (pageSize : UInt64) (index : Nat) (c : σ) :
    Outcome Misuse σ Page :=
  (q.position logging c).andThen fun c () =>
    (Outcome.report logging c ()
      (.searchBegun index q.direction q.startKey? (Cursor.valid c))).andThen fun c () =>
        fetch logging q.direction q.limit q.filter pageSize c

end Query

variable {σ : Type} [Cursor σ]

/-- Runs queries of which the first one has number `index`. -/
def searchFrom (logging : Bool) (settings : Settings) (index : Nat) :
    List Query → σ → Outcome Misuse σ Results
  | [], c => .ok c .empty
  | q :: queries, c =>
      (q.run logging settings.pageSize index c).andThen fun c p =>
        match Cursor.failure c with
        | none =>
            (searchFrom logging settings (index + 1) queries c).andThen fun c rest =>
              .ok c (rest.cons p)
        | some e =>
            (Outcome.report logging c () (.searchFailed index e)).andThen fun c () =>
              match settings.policy with
              | .abort =>
                  .ok c ((Results.blank settings queries.length).consFailed p ⟨index, e⟩)
              | .proceed =>
                  (searchFrom logging settings (index + 1) queries c).andThen
                    fun c rest => .ok c (rest.consFailed p ⟨index, e⟩)

/-- Runs a list of queries. -/
def search (logging : Bool) (settings : Settings) (queries : List Query) (c : σ) :
    Outcome Misuse σ Results :=
  searchFrom logging settings 0 queries c

end PagedScan
