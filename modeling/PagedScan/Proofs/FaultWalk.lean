import PagedScan.Cursor.Failing
import PagedScan.Proofs.Passage

/-!
# The way of a cursor that fails

A failing cursor goes the way of the cursor inside it. With enough steps left
it passes the same entries, and counts them off; with too few it passes the
first of them, one more than it has steps left. The one more is the entry from
which it fails to move on: by then it has been read, so a fetch has it on its
page already, and the cursor inside still stands on it.

The number of steps left is an option, and none of them left to count is what
remains after the failure. `some n` and `none` take the same lemma, since what
is asked of the number is only that it is not too small if there is one.
-/

namespace PagedScan

namespace FailingCursor

variable {σ : Type} [Cursor σ] {logging : Bool} {d : Direction}

theorem valid_eq {c : σ} {stepsLeft : Option Nat} :
    Cursor.valid (⟨c, stepsLeft, none⟩ : FailingCursor σ) = Cursor.valid c :=
  Bool.true_and _

theorem valid_failed {c : σ} {stepsLeft : Option Nat} {e : Error} :
    Cursor.valid (⟨c, stepsLeft, some e⟩ : FailingCursor σ) = false := rfl

theorem of_valid {c : FailingCursor σ} (h : Cursor.valid c = true) :
    c.failure = none ∧ Cursor.valid c.inner = true := by
  obtain ⟨hfailure, hinner⟩ := Bool.and_eq_true_iff.mp h
  exact ⟨Option.isNone_iff_eq_none.mp hfailure, hinner⟩

/-! ## One step -/

theorem step_counted {c c₁ : σ} {stepsLeft : Option Nat}
    (hleft : ∀ n, stepsLeft = some n → 0 < n) (h : (Cursor.step logging d c).Yields c₁ ()) :
    (Cursor.step logging d (⟨c, stepsLeft, none⟩ : FailingCursor σ)).Yields
      ⟨c₁, stepsLeft.map (· - 1), none⟩ () := by
  obtain ⟨hanswer, rfl⟩ := h
  match stepsLeft with
  | none => exact ⟨hanswer, rfl⟩
  | some 0 => exact absurd (hleft 0 rfl) (Nat.lt_irrefl 0)
  | some (n + 1) => exact ⟨hanswer, rfl⟩

/-- The step that fails moves nothing. With somebody listening it reads the key
under the cursor, which is there to be read. -/
theorem step_fails {c : σ} {key : Bytes} (hkey : Cursor.key c = .ok key) :
    (Cursor.step logging d (⟨c, some 0, none⟩ : FailingCursor σ)).Yields
      ⟨c, none, some injected⟩ () := by
  show (step logging d _).Yields _ ()
  rw [step]
  dsimp only
  split
  · rw [hkey, Outcome.ofLookup]
    exact .report
  · exact .ok

/-! ## Counting down -/

theorem map_sub_map_sub (stepsLeft : Option Nat) (a b : Nat) :
    (stepsLeft.map (· - a)).map (· - b) = stepsLeft.map (· - (a + b)) := by
  rw [Option.map_map]
  congr 1
  funext n
  simp only [Function.comp_apply]
  omega

theorem le_of_map_sub {stepsLeft : Option Nat} {a b : Nat}
    (h : ∀ n, stepsLeft = some n → a + b ≤ n) :
    ∀ n, stepsLeft.map (· - a) = some n → b ≤ n := by
  intro n hn
  obtain ⟨m, hm, rfl⟩ := Option.map_eq_some_iff.mp hn
  have := h m hm
  omega

/-! ## The whole way -/

theorem passes_within {c c' : σ} {es : List Entry} (h : Passes logging d c es c') :
    ∀ {stepsLeft : Option Nat}, (∀ n, stepsLeft = some n → es.length ≤ n) →
    Passes logging d (⟨c, stepsLeft, none⟩ : FailingCursor σ) es
      ⟨c', stepsLeft.map (· - es.length), none⟩ := by
  induction h with
  | nothing c =>
      intro stepsLeft _
      cases stepsLeft with
      | none => exact .nothing _
      | some n => exact .nothing _
  | @entry c c₁ c₂ e es hvalid hkey hvalue hstep _ ih =>
      intro stepsLeft hleft
      have hpos : ∀ n, stepsLeft = some n → 0 < n :=
        fun n hn => Nat.lt_of_lt_of_le (Nat.succ_pos _) (hleft n hn)
      refine .entry (valid_eq.trans hvalid) hkey hvalue (step_counted hpos hstep) ?_
      rw [List.length_cons, Nat.add_comm] at hleft ⊢
      rw [← map_sub_map_sub]
      exact ih (le_of_map_sub hleft)

theorem passes_failing {c c' : σ} {es : List Entry} (h : Passes logging d c es c') :
    ∀ {n : Nat}, n < es.length → ∃ c₁, Passes logging d c (es.take n) c₁ ∧
      Passes logging d (⟨c, some n, none⟩ : FailingCursor σ) (es.take (n + 1))
        ⟨c₁, none, some injected⟩ := by
  induction h with
  | nothing c => intro n hn; cases hn
  | @entry c c₁ c₂ e es hvalid hkey hvalue hstep _ ih =>
      intro n hn
      match n with
      | 0 =>
          exact ⟨c, .nothing c, .entry (valid_eq.trans hvalid) hkey hvalue
            (step_fails hkey) (.nothing _)⟩
      | n + 1 =>
          obtain ⟨c', hinner, hfails⟩ := ih (Nat.lt_of_succ_lt_succ hn)
          refine ⟨c', .entry hvalid hkey hvalue hstep hinner, ?_⟩
          refine .entry (valid_eq.trans hvalid) hkey hvalue (step_counted ?_ hstep) hfails
          rintro _ ⟨⟩
          exact Nat.succ_pos n

/-! ## Where it stops -/

variable {max : Option Nat} {f : Filter} {p : Page}

theorem stops_of_inner {c : σ} (stepsLeft : Option Nat) (h : Stops d max f p c) :
    Stops d max f p (⟨c, stepsLeft, none⟩ : FailingCursor σ) := by
  cases h with
  | ended hvalid => exact .ended (valid_eq.trans hvalid)
  | full hfull => exact .full hfull
  | refused hkey hadmits => exact .refused hkey hadmits

theorem stops_of_failed {c : σ} (stepsLeft : Option Nat) (e : Error) :
    Stops d max f p (⟨c, stepsLeft, some e⟩ : FailingCursor σ) :=
  .ended valid_failed

end FailingCursor

end PagedScan
