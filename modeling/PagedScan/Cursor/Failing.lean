import PagedScan.Cursor

/-!
# A cursor that fails

A failing cursor moves like the cursor inside it until it has made a given
number of steps. The step after those fails, the way a step does that meets a
damaged block: the cursor stays where it is, is not valid any more, and has an
error to show for it. That happens once. A seek clears the error, and from then
on the cursor is as good as the one inside.

A step is counted before it is made, so one that turns out to be misuse has
been counted all the same. A step on a failed cursor still moves the cursor
inside.
-/

namespace PagedScan

/-- A cursor that fails once. -/
structure FailingCursor (σ : Type) where
  inner : σ
  stepsLeft : Option Nat
  failure : Option Error

namespace FailingCursor

variable {σ : Type}

/-- A cursor that fails after so many steps. -/
def ofCursor (inner : σ) (steps : Nat) : FailingCursor σ :=
  ⟨inner, some steps, none⟩

/-- The error that the cursor fails with. -/
def injected : Error :=
  .cursor "injected corruption"

variable [Cursor σ]

/-- Whether the cursor stands on an entry and has not failed. -/
def valid (c : FailingCursor σ) : Bool :=
  c.failure.isNone && Cursor.valid c.inner

/-- The cursor with another one inside and no error. -/
def cleared (c : FailingCursor σ) (inner : σ) : FailingCursor σ :=
  { c with inner := inner, failure := none }

/-- Moves the cursor inside. -/
def move (logging : Bool) (d : Direction) (c : FailingCursor σ) :
    Outcome Misuse (FailingCursor σ) Unit :=
  let o := Cursor.step logging d c.inner
  ⟨o.answer, { c with inner := o.state }, o.events⟩

/-- The cursor once it has failed. -/
def failed (c : FailingCursor σ) : FailingCursor σ :=
  { c with stepsLeft := none, failure := some injected }

/-- One step on. The key under the cursor is read only for the log, so whether
anyone listens decides whether failing on no entry is misuse. -/
def step (logging : Bool) (d : Direction) (c : FailingCursor σ) :
    Outcome Misuse (FailingCursor σ) Unit :=
  match c.stepsLeft with
  | some 0 =>
      if logging then
        .ofLookup c (Cursor.key c.inner) fun key =>
          .report logging c.failed () (.faultMet key)
      else
        .ok c.failed ()
  | some (n + 1) => move logging d { c with stepsLeft := some n }
  | none => move logging d c

/-- A failed cursor is not walked on, and a step that fails uses up one step. -/
def remaining (d : Direction) (c : FailingCursor σ) : Nat :=
  if c.failure.isSome then 0 else Cursor.remaining d c.inner + 1

theorem remaining_move {logging : Bool} {d : Direction} {c : FailingCursor σ}
    (hfailure : c.failure = none) (hvalid : Cursor.valid c.inner = true)
    (h : (move logging d c).answer = .ok ()) :
    remaining d (move logging d c).state < remaining d c := by
  simp only [move, remaining, hfailure] at h ⊢
  exact Nat.succ_lt_succ (Cursor.remaining_step hvalid h)

theorem remaining_step {logging : Bool} {d : Direction} {c : FailingCursor σ}
    (hvalid : valid c = true) (h : (step logging d c).answer = .ok ()) :
    remaining d (step logging d c).state < remaining d c := by
  simp only [valid, Bool.and_eq_true, Option.isNone_iff_eq_none] at hvalid
  obtain ⟨hfailure, hinner⟩ := hvalid
  have hfailed : remaining d c.failed < remaining d c := by
    simp only [remaining, failed, hfailure]
    exact Nat.succ_pos _
  unfold step at h ⊢
  split at h
  · split at h
    · next hlogging =>
        rw [if_pos hlogging]
        cases hkey : Cursor.key c.inner with
        | error m => rw [hkey] at h; cases h
        | ok key => exact hfailed
    · next hlogging => rw [if_neg hlogging]; exact hfailed
  · exact remaining_move (c := { c with stepsLeft := _ }) hfailure hinner h
  · exact remaining_move hfailure hinner h

instance : Cursor (FailingCursor σ) where
  valid := valid
  key c := Cursor.key c.inner
  value c := Cursor.value c.inner
  step := step
  seekEdge d c := c.cleared (Cursor.seekEdge d c.inner)
  seek d key c := c.cleared (Cursor.seek d key c.inner)
  failure c := c.failure
  remaining := remaining
  remaining_step := remaining_step

end FailingCursor

end PagedScan
