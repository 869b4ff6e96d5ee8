import PagedScan.Proofs.CursorPlaces
import PagedScan.Proofs.FaultWalk

/-!
# A failing cursor and the cursor inside it, move by move

Give the same moves to a cursor and to a failing cursor around it. Up to the fault the two
cannot be told apart. The failing step then moves one and not the other, so from
there on they stand in different places, and no step brings them together again: the
cursor inside goes on moving from where it was left, and one of the two may run into
misuse where the other does not. What brings them together is a seek, because where a
seek leads does not depend on where the cursor was.

So the argument has three parts, one for each state of a failing cursor: steps left to
count, failed, and nothing left to count. The first and the last are one lemma, since a
cursor that has not failed moves like the one inside it either way, and only the number
of steps taken decides how long that lasts. A step that turns out to be misuse is
counted like any other, so the number does not ask how the steps went.
-/

namespace PagedScan

/-! ## What is seen of a cursor -/

namespace Cursor

/-- All that a cursor shows of itself. -/
structure Sight where
  valid : Bool
  key : Except Misuse Bytes
  value : Except Misuse Bytes
  failure : Option Error

namespace Move

/-- Whether the move is a step. -/
def isStep : Move → Bool
  | step _ => true
  | edge _ | seek _ _ => false

/-- How many of these moves are steps. -/
def steps (moves : List Move) : Nat :=
  moves.countP isStep

end Move

variable {σ : Type} [Cursor σ]

/-- What the cursor shows. -/
def sight (c : σ) : Sight :=
  ⟨valid c, key c, value c, failure c⟩

/-- What each of these moves answers, and what the cursor shows after it. -/
def transcript (logging : Bool) : List Move → σ → List (Except Misuse Unit × Sight)
  | [], _ => []
  | move :: moves, c =>
      ((move.run logging c).answer, sight (move.run logging c).state) ::
        transcript logging moves (move.run logging c).state

theorem after_append (logging : Bool) (front behind : List Move) (c : σ) :
    after logging (front ++ behind) c = after logging behind (after logging front c) :=
  List.foldl_append

end Cursor

open Cursor (Move)

theorem Cursor.Move.steps_cons (move : Move) (moves : List Move) :
    steps (move :: moves) = steps [move] + steps moves := by
  rw [steps, steps, steps, List.countP_cons, List.countP_singleton, Nat.add_comm]

namespace FailingCursor

variable {σ : Type} [Cursor σ]

/-! ## Before the fault, and after it is forgotten -/

theorem sight_eq {c : σ} {stepsLeft : Option Nat} (h : Cursor.failure c = none) :
    Cursor.sight (⟨c, stepsLeft, none⟩ : FailingCursor σ) = Cursor.sight c := by
  rw [Cursor.sight, Cursor.sight, valid_eq, h]
  rfl

/-- A move that does not fail is that of the cursor inside, and is counted if it is a
step. -/
theorem run_within (logging : Bool) {move : Move} {stepsLeft : Option Nat} (c : σ)
    (h : ∀ n, stepsLeft = some n → Move.steps [move] ≤ n) :
    (move.run logging (⟨c, stepsLeft, none⟩ : FailingCursor σ)).answer =
        (move.run logging c).answer ∧
      (move.run logging (⟨c, stepsLeft, none⟩ : FailingCursor σ)).state =
        ⟨(move.run logging c).state, stepsLeft.map (· - Move.steps [move]), none⟩ := by
  cases move with
  | edge d => cases stepsLeft <;> exact ⟨rfl, rfl⟩
  | seek d key => cases stepsLeft <;> exact ⟨rfl, rfl⟩
  | step d =>
      match stepsLeft with
      | none => exact ⟨rfl, rfl⟩
      | some 0 => exact absurd (h 0 rfl) (Nat.not_succ_le_zero 0)
      | some (n + 1) => exact ⟨rfl, rfl⟩

/-- What is enough for all moves is enough for the first, and what is then left is
enough for the others. -/
theorem enough_cons {move : Move} {moves : List Move} {stepsLeft : Option Nat}
    (h : ∀ n, stepsLeft = some n → Move.steps (move :: moves) ≤ n) :
    (∀ n, stepsLeft = some n → Move.steps [move] ≤ n) ∧
      ∀ n, stepsLeft.map (· - Move.steps [move]) = some n → Move.steps moves ≤ n := by
  rw [Move.steps_cons] at h
  exact ⟨fun n hn => Nat.le_trans (Nat.le_add_right _ _) (h n hn), le_of_map_sub h⟩

theorem after_within (logging : Bool) {moves : List Move} :
    ∀ {stepsLeft : Option Nat} (c : σ), (∀ n, stepsLeft = some n → Move.steps moves ≤ n) →
    Cursor.after logging moves (⟨c, stepsLeft, none⟩ : FailingCursor σ) =
      ⟨Cursor.after logging moves c, stepsLeft.map (· - Move.steps moves), none⟩ := by
  induction moves with
  | nil =>
      intro stepsLeft c _
      cases stepsLeft with
      | none => rfl
      | some n => rfl
  | cons move moves ih =>
      intro stepsLeft c hleft
      obtain ⟨hfirst, hothers⟩ := enough_cons hleft
      rw [Cursor.after, List.foldl_cons, (run_within logging c hfirst).2,
        Move.steps_cons move moves, ← map_sub_map_sub]
      exact ih _ hothers

/-- The failing cursor answers and shows the same as the cursor inside, as long as it
does not fail. -/
theorem transcript_within (logging : Bool) (hclean : ∀ c : σ, Cursor.failure c = none)
    {moves : List Move} :
    ∀ {stepsLeft : Option Nat} (c : σ), (∀ n, stepsLeft = some n → Move.steps moves ≤ n) →
    Cursor.transcript logging moves (⟨c, stepsLeft, none⟩ : FailingCursor σ) =
      Cursor.transcript logging moves c := by
  induction moves with
  | nil => intro stepsLeft c _; rfl
  | cons move moves ih =>
      intro stepsLeft c hleft
      obtain ⟨hfirst, hothers⟩ := enough_cons hleft
      obtain ⟨hanswer, hstate⟩ := run_within logging c hfirst
      rw [Cursor.transcript, Cursor.transcript, hanswer, hstate, ih _ hothers,
        sight_eq (hclean _)]

/-! ## From the fault to the next seek -/

/-- Steps of a failed cursor move the cursor inside, as misuse or not, and the failure
stays. -/
theorem after_failed (logging : Bool) (e : Error) (ds : List Direction) (c : σ) :
    Cursor.after logging (ds.map .step) (⟨c, none, some e⟩ : FailingCursor σ) =
      ⟨Cursor.after logging (ds.map .step) c, none, some e⟩ := by
  induction ds generalizing c with
  | nil => rfl
  | cons d ds ih => exact ih (Cursor.step logging d c).state

/-- With no steps left and nobody listening, a step answers, moves nothing and fails. -/
theorem step_at_fault (d : Direction) (c : σ) :
    (Cursor.step false d (⟨c, some 0, none⟩ : FailingCursor σ)).Yields
      ⟨c, none, some injected⟩ () :=
  ⟨rfl, rfl⟩

/-- After as many steps as it had left, none are left. -/
theorem after_all_steps {moves : List Move} (c : σ) :
    Cursor.after false moves (ofCursor c (Move.steps moves)) =
      ⟨Cursor.after false moves c, some 0, none⟩ := by
  rw [ofCursor, after_within false c (by rintro _ ⟨⟩; exact Nat.le_refl _), Option.map_some,
    Nat.sub_self]

theorem after_fault {moves : List Move} (d : Direction) (ds : List Direction) (c : σ) :
    Cursor.after false (moves ++ .step d :: ds.map .step) (ofCursor c (Move.steps moves)) =
      ⟨Cursor.after false (ds.map .step) (Cursor.after false moves c), none, some injected⟩ := by
  rw [Cursor.after_append, after_all_steps, Cursor.after, List.foldl_cons]
  exact after_failed false injected ds _

/-! ## From the seek on -/

/-- A seek makes good what a failure left behind, wherever the cursor inside is. -/
theorem run_seek {move : Move} (hmove : move.isStep = false) (logging : Bool) (c : σ)
    (e : Error) :
    (move.run logging (⟨c, none, some e⟩ : FailingCursor σ)).answer =
        (move.run logging c).answer ∧
      (move.run logging (⟨c, none, some e⟩ : FailingCursor σ)).state =
        ⟨(move.run logging c).state, none, none⟩ := by
  cases move with
  | edge d => exact ⟨rfl, rfl⟩
  | seek d key => exact ⟨rfl, rfl⟩
  | step d => cases hmove

end FailingCursor

namespace StoreCursor

variable {s : Store} {move : Move}

theorem run_seek (hmove : move.isStep = false) (logging : Bool) (c c' : StoreCursor s) :
    move.run logging c = move.run logging c' := by
  cases move with
  | edge d => rfl
  | seek d key => rfl
  | step d => cases hmove

/-- From a seek on, a cursor that had failed is like any cursor of the store. -/
theorem transcript_seek (hmove : move.isStep = false) (logging : Bool) (rest : List Move)
    (c c' : StoreCursor s) (e : Error) :
    Cursor.transcript logging (move :: rest)
        (⟨c, none, some e⟩ : FailingCursor (StoreCursor s)) =
      Cursor.transcript logging (move :: rest) c' ∧
    Cursor.failure (Cursor.after logging (move :: rest)
        (⟨c, none, some e⟩ : FailingCursor (StoreCursor s))) = none := by
  obtain ⟨hanswer, hstate⟩ := FailingCursor.run_seek hmove logging c e
  have hleft : ∀ n, (none : Option Nat) = some n → Move.steps rest ≤ n := by
    rintro _ ⟨⟩
  constructor
  · rw [Cursor.transcript, Cursor.transcript, run_seek hmove logging c' c, hanswer, hstate,
      FailingCursor.transcript_within logging (fun _ => rfl) _ hleft,
      FailingCursor.sight_eq rfl]
  · rw [Cursor.after, List.foldl_cons, hstate]
    exact congrArg Cursor.failure (FailingCursor.after_within logging _ hleft)

end StoreCursor

/-! ## The whole run -/

/-- A cursor of a store and a failing cursor around it with `n` steps left, given the
same moves while nobody listens. Up to the `n`-th step they answer alike, misuse
included, and show the same, which is no failure. The step after that answers and leaves
the cursor inside where it is; whatever steps follow, the failing cursor is on no entry
and shows its error. With the next seek they are alike again, for good: there is no
second failure. -/
theorem Store.failing_cursor_recovers (s : Store) (c : StoreCursor s) (n : Nat) :
    (∀ moves, Move.steps moves ≤ n →
      Cursor.transcript false moves (FailingCursor.ofCursor c n) =
        Cursor.transcript false moves c ∧
      Cursor.sight (Cursor.after false moves (FailingCursor.ofCursor c n)) =
        Cursor.sight (Cursor.after false moves c) ∧
      Cursor.failure (Cursor.after false moves (FailingCursor.ofCursor c n)) = none) ∧
    ∀ moves, Move.steps moves = n → ∀ d : Direction,
      (∃ c', (Cursor.step false d
          (Cursor.after false moves (FailingCursor.ofCursor c n))).Yields c' () ∧
        c'.inner = (Cursor.after false moves (FailingCursor.ofCursor c n)).inner) ∧
      ∀ (ds : List Direction) (way : List Move), way = moves ++ .step d :: ds.map .step →
        Cursor.valid (Cursor.after false way (FailingCursor.ofCursor c n)) = false ∧
        Cursor.failure (Cursor.after false way (FailingCursor.ofCursor c n)) =
          some FailingCursor.injected ∧
        ∀ (seek : Move) (rest : List Move), seek.isStep = false →
          Cursor.transcript false (seek :: rest)
              (Cursor.after false way (FailingCursor.ofCursor c n)) =
            Cursor.transcript false (seek :: rest) (Cursor.after false way c) ∧
          Cursor.failure (Cursor.after false (way ++ seek :: rest)
            (FailingCursor.ofCursor c n)) = none := by
  refine ⟨fun moves hmoves => ?_, ?_⟩
  · have hleft : ∀ m, some n = some m → Move.steps moves ≤ m := by
      rintro _ ⟨⟩
      exact hmoves
    rw [FailingCursor.ofCursor, FailingCursor.after_within false c hleft]
    exact ⟨FailingCursor.transcript_within false (fun _ => rfl) c hleft,
      FailingCursor.sight_eq rfl, rfl⟩
  · rintro moves rfl d
    refine ⟨?_, ?_⟩
    · rw [FailingCursor.after_all_steps]
      exact ⟨_, FailingCursor.step_at_fault d _, rfl⟩
    · rintro ds way rfl
      rw [FailingCursor.after_fault]
      refine ⟨rfl, rfl, fun seek rest hseek => ?_⟩
      rw [Cursor.after_append _ (moves ++ _), FailingCursor.after_fault]
      exact StoreCursor.transcript_seek hseek false rest _ _ _

/-- A cursor at the first of three entries, and one step before the fault. The step that
fails leaves the failing cursor at the second entry, so the next one takes it back to the
first, where the other cursor comes back to the second only. A seek for the third brings
them together. -/
theorem Store.failing_cursor_recovers_at_third_entry :
    ∃ c : StoreCursor (.ofNames ["a", "b", "c"]), Cursor.key c = .ok [97] ∧
      Cursor.transcript false [.step .forward] (FailingCursor.ofCursor c 1) =
        Cursor.transcript false [.step .forward] c ∧
      Cursor.key (Cursor.after false [.step .forward, .step .forward, .step .backward] c) =
        .ok [98] ∧
      Cursor.key (Cursor.after false [.step .forward, .step .forward, .step .backward]
        (FailingCursor.ofCursor c 1)) = .ok [97] ∧
      Cursor.valid (Cursor.after false [.step .forward, .step .forward, .step .backward]
        (FailingCursor.ofCursor c 1)) = false ∧
      Cursor.transcript false [.seek .forward [99], .step .forward]
          (Cursor.after false [.step .forward, .step .forward, .step .backward]
            (FailingCursor.ofCursor c 1)) =
        Cursor.transcript false [.seek .forward [99], .step .forward]
          (Cursor.after false [.step .forward, .step .forward, .step .backward] c) := by
  refine ⟨.first _ .forward fun _ => true, by decide, ?_, by decide, by decide, ?_⟩
  · exact ((Store.failing_cursor_recovers _ _ 1).1 [.step .forward] (by decide)).1
  · obtain ⟨-, hway⟩ := (Store.failing_cursor_recovers (.ofNames ["a", "b", "c"])
      (.first _ .forward fun _ => true) 1).2 [.step .forward] (by decide) .forward
    obtain ⟨hvalid, -, hseek⟩ := hway [.backward] _ rfl
    exact ⟨hvalid, (hseek (.seek .forward [99]) [.step .forward] rfl).1⟩

end PagedScan
