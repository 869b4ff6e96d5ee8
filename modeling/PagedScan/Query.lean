import PagedScan.Cursor
import PagedScan.Filter

/-!
# Queries

A query asks for a stretch of the collection: where to start, which keys to
keep to, how many entries to take, and which way to go. An empty start is no
start, and a walk without one begins at its edge.
-/

namespace PagedScan

/-- What to look for. -/
structure Query where
  start : Option Bytes
  stem : Option Bytes
  stop : Option Bytes
  limit : Int64
  reverse : Bool
  /-- Whether an entry that lies exactly at the start is left out. -/
  skipStart : Bool
  deriving DecidableEq, Repr

namespace Query

/-- The query for everything. -/
def all : Query :=
  ⟨none, none, none, 0, false, false⟩

instance : Inhabited Query := ⟨all⟩

/-- Which way the query is walked. -/
def direction (q : Query) : Direction :=
  .ofReverse q.reverse

/-- Which keys the query keeps to. -/
def filter (q : Query) : Filter :=
  .ofOptions q.stem q.stop

/-- The key to start from, if there is one. -/
def startKey? (q : Query) : Option Bytes :=
  q.start.filter fun key => !key.isEmpty

variable {σ : Type} [Cursor σ]

/-- Moves one entry on if the cursor stands exactly on `key`. -/
def leave (logging : Bool) (d : Direction) (key : Bytes) (c : σ) :
    Outcome Misuse σ Unit :=
  if Cursor.valid c then
    .ofLookup c (Cursor.key c) fun here =>
      if here = key then Cursor.step logging d c else .ok c ()
  else .ok c ()

/-- Puts a cursor where the query begins. -/
def position (q : Query) (logging : Bool) (c : σ) : Outcome Misuse σ Unit :=
  match q.startKey? with
  | none => .ok (Cursor.seekEdge q.direction c) ()
  | some key =>
      let c := Cursor.seek q.direction key c
      if q.skipStart then leave logging q.direction key c else .ok c ()

end Query

end PagedScan
