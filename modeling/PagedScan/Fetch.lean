import PagedScan.Cursor
import PagedScan.Filter
import PagedScan.Page

/-!
# Fetching a page

A fetch walks from where the cursor stands and copies the entries it meets to a
page, until it has as many as it may take, or the filter does not admit the
next key, or the cursor is not valid any more. The cursor is left on the first
entry that was not taken, so that the same fetch again goes on from there.

A cursor that fails is not valid, and the walk ends as if it had run off an
end: whether it did is a question for the cursor afterwards.
-/

namespace PagedScan

/-- How many entries a limit lets through, if it is a limit: zero and negative
ones are none. -/
def limit? (limit : Int64) : Option Nat :=
  if 0 < limit.toInt then some limit.toInt.toNat else none

/-- The room that a page starts with: what the page size asks for, but no more
than may be taken. -/
def startingRoom (limit : Int64) (pageSize : UInt64) : Nat :=
  match limit? limit with
  | some max => min max (Page.roomFor pageSize)
  | none => Page.roomFor pageSize

/-- The page that a fetch starts with. -/
def startingPage (limit : Int64) (pageSize : UInt64) : Page :=
  { capacity := startingRoom limit pageSize }

/-- Whether a page holds as many entries as may be taken. -/
def isFull (max : Option Nat) (p : Page) : Bool :=
  match max with
  | some max => max ≤ p.count
  | none => false

variable {σ : Type} [Cursor σ]

/-- Walks on from the cursor and adds what it takes to the page. -/
def fetchInto (logging : Bool) (d : Direction) (max : Option Nat) (f : Filter)
    (p : Page) (c : σ) : Outcome Misuse σ Page :=
  if _hvalid : Cursor.valid c = true then
    if isFull max p then .ok c p
    else
      match Cursor.key c with
      | .error m => .fail c m
      | .ok key =>
          if f.admits d key then
            match Cursor.value c with
            | .error m => .fail c m
            | .ok value =>
                match _hstep : Cursor.step logging d c with
                | ⟨.error m, c', events⟩ => ⟨.error m, c', events⟩
                | ⟨.ok (), c', events⟩ =>
                    (fetchInto logging d max f (p.append ⟨key, value⟩) c').after events
          else .ok c p
  else .ok c p
termination_by Cursor.remaining d c
decreasing_by
  have hless : (Cursor.step logging d c).answer = .ok () → _ :=
    Cursor.remaining_step _hvalid
  rw [_hstep] at hless
  exact hless rfl

/-- Fetches a page. -/
def fetch (logging : Bool) (d : Direction) (limit : Int64) (f : Filter)
    (pageSize : UInt64) (c : σ) : Outcome Misuse σ Page :=
  (fetchInto logging d (limit? limit) f (startingPage limit pageSize) c).andThen
    fun c p => .report logging c p (.fetched d limit p.count (Cursor.valid c))

/-- Fetches a page of the default size. -/
def fetchMany (logging : Bool) (d : Direction) (limit : Int64) (f : Filter) (c : σ) :
    Outcome Misuse σ Page :=
  fetch logging d limit f (.ofNat Page.defaultSize) c

end PagedScan
