import PagedScan.Proofs.PageReading

/-!
# Pulling from both ends

An iterator may be pulled from either end in any order, and its two ends meet wherever the
pulls happen to have brought them. No single end knows where that is. What every pull
keeps is a split of the page into three: what the front gave, what is left, and what the
back gave, read backwards. A pull moves one entry out of the middle to the side it was made
on, or finds the middle empty and moves nothing. So the split is carried along any sequence
of pulls by induction, and everything else is read off it.

How many entries are left is simpler still. A pull takes one off from whichever end, as long
as there is one, and so the number says nothing about the ends at all.
-/

namespace PagedScan.Page

/-- The entries among these results that came from the end `d`, in the order they came. -/
def cameFrom (d : Direction) (results : List (Direction × Option Entry)) : List Entry :=
  results.filterMap fun result => if result.1 = d then result.2 else none

namespace Iter

/-- Pulls from these ends, one after the other, each with the entry that it gave. -/
def pulls : List Direction → Iter → List (Direction × Option Entry)
  | [], _ => []
  | d :: ends, it => (d, (it.pull d).1) :: pulls ends (it.pull d).2

/-- The iterator behind pulls from these ends. -/
def after (ends : List Direction) (it : Iter) : Iter :=
  ends.foldl (fun it d => (it.pull d).2) it

variable {it : Iter} {d : Direction}

/-! ## One pull -/

theorem left_pull (it : Iter) (d : Direction) : (it.pull d).2.left = it.left - 1 := by
  cases d with
  | forward =>
      simp only [pull, next]
      split <;> simp only [left] <;> omega
  | backward =>
      simp only [pull, nextBack]
      split <;> simp only [left] <;> omega

/-- A pull finds nothing left, or takes the entry that is outermost on its side. -/
theorem pull_cases (h : it.Within) (d : Direction) :
    (it.rest = [] ∧ it.pull d = (none, it)) ∨
      ∃ e it', it.pull d = (some e, it') ∧ it'.Within ∧
        it.rest = match d with | .forward => e :: it'.rest | .backward => it'.rest ++ [e] := by
  by_cases hrest : it.rest = []
  · exact .inl ⟨hrest, pull_of_rest_nil h hrest⟩
  · right
    cases d with
    | forward =>
        obtain ⟨e, es, hcons⟩ := List.exists_cons_of_ne_nil hrest
        obtain ⟨it', hpull, hwithin, rfl⟩ := pull_of_rest (d := .forward) h hcons
        exact ⟨e, it', hpull, hwithin, hcons⟩
    | backward =>
        have hconcat := (List.dropLast_concat_getLast hrest).symm
        obtain ⟨it', hpull, hwithin, hdropped⟩ := pull_of_rest (d := .backward) h hconcat
        exact ⟨_, it', hpull, hwithin, hdropped ▸ hconcat⟩

/-- An entry comes exactly if one is left. -/
theorem isSome_pull_iff (h : it.Within) : (it.pull d).1.isSome = true ↔ 0 < it.left := by
  rw [← length_rest h]
  rcases pull_cases h d with ⟨hrest, hpull⟩ | ⟨e, it', hpull, -, hrest⟩
  · simp [hpull, hrest]
  · rw [hpull, hrest]
    cases d <;> simp

theorem Within.pull (h : it.Within) (d : Direction) : (it.pull d).2.Within := by
  rcases pull_cases h d with ⟨-, hpull⟩ | ⟨e, it', hpull, hwithin, -⟩
  · rw [hpull]
    exact h
  · rw [hpull]
    exact hwithin

/-! ## Any number of pulls -/

theorem after_cons (d : Direction) (ends : List Direction) (it : Iter) :
    it.after (d :: ends) = (it.pull d).2.after ends :=
  rfl

theorem left_after (ends : List Direction) (it : Iter) :
    (it.after ends).left = it.left - ends.length := by
  induction ends generalizing it with
  | nil => rfl
  | cons d ends ih =>
      rw [after_cons, ih, left_pull, List.length_cons]
      omega

theorem isSome_pulls_iff (h : it.Within) {ends : List Direction} {k : Nat}
    {result : Direction × Option Entry} (hresult : (it.pulls ends)[k]? = some result) :
    result.2.isSome = true ↔ k < it.left := by
  induction ends generalizing it k with
  | nil => cases hresult
  | cons d ends ih =>
      cases k with
      | zero =>
          cases hresult
          exact isSome_pull_iff h
      | succ k =>
          rw [ih (h.pull d) hresult, left_pull]
          omega

/-- What the front gave, what is left, and what the back gave, read backwards, are what was
left before. -/
theorem rest_eq_append (h : it.Within) (ends : List Direction) :
    (it.after ends).Within ∧
      it.rest = cameFrom .forward (it.pulls ends) ++
        ((it.after ends).rest ++ (cameFrom .backward (it.pulls ends)).reverse) := by
  induction ends generalizing it with
  | nil => exact ⟨h, (List.append_nil it.rest).symm⟩
  | cons d ends ih =>
      rw [after_cons, pulls]
      rcases pull_cases h d with ⟨-, hpull⟩ | ⟨e, it', hpull, hwithin, hrest⟩
      · rw [hpull]
        simpa [cameFrom] using ih h
      · obtain ⟨hlast, hsplit⟩ := ih hwithin
        rw [hpull, hrest]
        refine ⟨hlast, ?_⟩
        -- The entry goes to the outside of what the rest of the pulls give, on its side.
        cases d with
        | forward => simpa [cameFrom] using hsplit
        | backward =>
            rw [hsplit]
            simp [cameFrom]

end Iter

/-- Pulls from both ends of a page, in any order. What came from the front are its first
entries, what came from the back, read backwards, its last ones, and between them lies what
is left, which is as much as the iterator says: one entry less for every pull, down to none.
A pull gives an entry exactly if fewer pulls came before it than the page has entries. Once
there were as many, nothing is left between the two, and a further pull from either end gives
nothing and changes nothing. -/
theorem pulls_split (p : Page) (ends : List Direction) :
    (∃ middle, p.toList = cameFrom .forward (p.iter.pulls ends) ++
        (middle ++ (cameFrom .backward (p.iter.pulls ends)).reverse) ∧
      middle.length = (p.iter.after ends).left) ∧
    (p.iter.after ends).left = p.count - min ends.length p.count ∧
    (∀ k result, (p.iter.pulls ends)[k]? = some result →
      (result.2.isSome = true ↔ k < p.count)) ∧
    (p.count ≤ ends.length →
      (∀ d, (p.iter.after ends).pull d = (none, p.iter.after ends)) ∧
      cameFrom .forward (p.iter.pulls ends) ++
        (cameFrom .backward (p.iter.pulls ends)).reverse = p.toList) := by
  obtain ⟨hwithin, hsplit⟩ := Iter.rest_eq_append (within_iter p) ends
  rw [rest_iter] at hsplit
  have hleft : (p.iter.after ends).left = p.count - ends.length := Iter.left_after ends p.iter
  have hlength := Iter.length_rest hwithin
  refine ⟨⟨_, hsplit, hlength⟩, by omega, ?_, ?_⟩
  · intro k result hresult
    exact Iter.isSome_pulls_iff (within_iter p) hresult
  · intro hmany
    have hnone : (p.iter.after ends).rest = [] := List.eq_nil_of_length_eq_zero (by omega)
    refine ⟨fun d => Iter.pull_of_rest_nil hwithin hnone, ?_⟩
    rw [hnone, List.nil_append] at hsplit
    exact hsplit.symm

/-- Three entries, pulled until the two ends have met in the middle, and once more. -/
theorem pulls_split_three_entries :
    ((ofSize 1).appendAll [⟨[1], []⟩, ⟨[], [2]⟩, ⟨[3], [3]⟩]).count ≤ 4 ∧
    cameFrom .forward (((ofSize 1).appendAll [⟨[1], []⟩, ⟨[], [2]⟩, ⟨[3], [3]⟩]).iter.pulls
      [.backward, .forward, .backward, .forward]) ++
      (cameFrom .backward (((ofSize 1).appendAll [⟨[1], []⟩, ⟨[], [2]⟩, ⟨[3], [3]⟩]).iter.pulls
        [.backward, .forward, .backward, .forward])).reverse =
      [⟨[1], []⟩, ⟨[], [2]⟩, ⟨[3], [3]⟩] := by
  have hcount : ((ofSize 1).appendAll [⟨[1], []⟩, ⟨[], [2]⟩, ⟨[3], [3]⟩]).count ≤ 4 := by decide
  obtain ⟨-, -, -, hmet⟩ := pulls_split ((ofSize 1).appendAll [⟨[1], []⟩, ⟨[], [2]⟩, ⟨[3], [3]⟩])
    [.backward, .forward, .backward, .forward]
  exact ⟨hcount, (hmet hcount).2⟩

end PagedScan.Page
