import PagedScan.Bytes

/-!
# The two ways to walk

A walk goes up the key order or down it. Almost every rule of the library is
the same for both once it is said in terms of `before`, the order in which the
walk meets its keys, and that is how the rules are said.
-/

namespace PagedScan

/-- Which way a walk goes through the keys. -/
inductive Direction where
  | forward
  | backward
  deriving DecidableEq, Repr

namespace Direction

/-- The direction of a query that may ask to be walked in reverse. -/
def ofReverse (reverse : Bool) : Direction :=
  if reverse then .backward else .forward

/-- Whether a walk in direction `d` meets the key `a` before the key `b`. -/
def before : Direction → Bytes → Bytes → Bool
  | .forward, a, b => decide (a < b)
  | .backward, a, b => decide (b < a)

theorem before_irrefl (d : Direction) (a : Bytes) : d.before a a = false := by
  cases d <;> simp [before, List.lt_irrefl]

theorem before_trans {d : Direction} {a b c : Bytes}
    (hab : d.before a b = true) (hbc : d.before b c = true) :
    d.before a c = true := by
  cases d <;> simp only [before, decide_eq_true_eq] at hab hbc ⊢
  · exact List.lt_trans hab hbc
  · exact List.lt_trans hbc hab

theorem before_asymm {d : Direction} {a b : Bytes}
    (h : d.before a b = true) : d.before b a = false := by
  cases hba : d.before b a with
  | false => rfl
  | true => rw [← before_irrefl d a]; exact (before_trans h hba).symm

theorem eq_of_not_before {d : Direction} {a b : Bytes}
    (hab : d.before a b = false) (hba : d.before b a = false) : a = b := by
  cases d <;> simp only [before, decide_eq_false_iff_not] at hab hba
  · exact List.le_antisymm hba hab
  · exact List.le_antisymm hab hba

/-- What comes before a key comes before any that is not itself before it. -/
theorem before_of_not_before {d : Direction} {a b c : Bytes}
    (hab : d.before a b = true) (hcb : d.before c b = false) : d.before a c = true := by
  cases hac : d.before a c with
  | true => rfl
  | false =>
      cases hca : d.before c a with
      | true => rw [before_trans hca hab] at hcb; cases hcb
      | false => rw [eq_of_not_before hac hca, hcb] at hab; cases hab

theorem not_before_trans {d : Direction} {a b c : Bytes}
    (hba : d.before b a = false) (hcb : d.before c b = false) : d.before c a = false := by
  cases hca : d.before c a with
  | false => rfl
  | true => rw [before_of_not_before hca hba] at hcb; cases hcb

end Direction

end PagedScan
