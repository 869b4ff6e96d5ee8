import PagedScan.Outcome

/-!
# Cursors

A cursor stands on an entry of an ordered collection, or on none: it has not
been put anywhere, or it has run off an end, or it has failed. Then it is not
valid, and its key and value may not be read nor may it be moved on; that is
misuse, and a cursor says so instead of inventing an entry.

A cursor is anything with the operations of the class below, so that the
library's own cursors and any other are walked by the same code. The one thing
asked of an implementation is that walking ends: `remaining` bounds the steps
that can still be made in a direction, and each step uses some of it up.

Whether anyone listens to the log is handed to `step`, because a cursor that
reports what it does may have to read an entry to do so.
-/

namespace PagedScan

/-- A cursor with states of type `σ`. -/
class Cursor (σ : Type) where
  /-- Whether the cursor stands on an entry. -/
  valid : σ → Bool
  /-- The key of the entry. -/
  key : σ → Except Misuse Bytes
  /-- The value of the entry. -/
  value : σ → Except Misuse Bytes
  /-- Moves on to the next entry in a direction. -/
  step : Bool → Direction → σ → Outcome Misuse σ Unit
  /-- Moves to the entry from which a walk in this direction sees all. -/
  seekEdge : Direction → σ → σ
  /-- Moves to the first entry that a walk in this direction meets at this key
  or behind it. -/
  seek : Direction → Bytes → σ → σ
  /-- The error that the cursor met, if it has failed. -/
  failure : σ → Option Error
  /-- A bound on the steps that can still be made in a direction. -/
  remaining : Direction → σ → Nat
  remaining_step : ∀ {logging d c}, valid c = true →
    (step logging d c).answer = .ok () →
    remaining d (step logging d c).state < remaining d c

namespace Cursor

variable {σ : Type} [Cursor σ]

/-- The error that the cursor met, as the failure of a check. -/
def status (c : σ) : Except Error Unit :=
  match failure c with
  | some e => .error e
  | none => .ok ()

/-- Whether the cursor stands on an entry whose key begins with `stem`. -/
def validForStem (c : σ) (stem : Bytes) : Except Misuse Bool :=
  if valid c then (key c).map (Bytes.startsWith · stem) else .ok false

end Cursor

end PagedScan
