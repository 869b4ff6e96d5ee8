import PagedScan.Fetch

/-!
# Fetching until nothing is left

Draining a cursor is fetching over and over, each time from where the last
fetch left it, until a page comes out empty. It ends because a fetch that takes
anything has moved the cursor on, and a cursor can only be moved on so often.
-/

namespace PagedScan

variable {σ : Type} [Cursor σ]

/-- A walk that took an entry has fewer steps left, and it never loses one. -/
theorem fetchInto_remaining {logging : Bool} {d : Direction} {max : Option Nat}
    {f : Filter} {p p' : Page} {c : σ}
    (h : (fetchInto logging d max f p c).answer = .ok p') :
    (p'.count = p.count ∧ (fetchInto logging d max f p c).state = c) ∨
      (p.count < p'.count ∧
        Cursor.remaining d (fetchInto logging d max f p c).state < Cursor.remaining d c) := by
  fun_induction fetchInto logging d max f p c with
  | case1 | case6 | case7 => cases h; exact .inl ⟨rfl, rfl⟩
  | case2 | case3 | case4 => cases h
  | case5 p c hvalid _ key _ _ value _ c₁ events₁ hstep ih =>
      have hless : (Cursor.step logging d c).answer = .ok () → _ :=
        Cursor.remaining_step hvalid
      rw [hstep] at hless
      have hless := hless rfl
      simp only [Outcome.after] at h ⊢
      rcases ih h with ⟨hcount, hstate⟩ | ⟨hcount, hrest⟩
      · rw [Page.count_append] at hcount
        exact .inr ⟨by omega, by rw [hstate]; exact hless⟩
      · rw [Page.count_append] at hcount
        exact .inr ⟨by omega, Nat.lt_trans hrest hless⟩

/-- A fetch that answers with an entry has moved the cursor on. -/
theorem fetch_remaining {logging : Bool} {d : Direction} {limit : Int64}
    {f : Filter} {pageSize : UInt64} {p : Page} {c c' : σ} {events : List Event}
    (h : fetch logging d limit f pageSize c = ⟨.ok p, c', events⟩)
    (hp : p.isEmpty = false) : Cursor.remaining d c' < Cursor.remaining d c := by
  unfold fetch Outcome.andThen at h
  split at h
  · cases h
  · next p₁ hanswer =>
      simp only [Outcome.after, Outcome.report, Outcome.mk.injEq, Except.ok.injEq] at h
      obtain ⟨rfl, rfl, -⟩ := h
      rcases fetchInto_remaining hanswer with ⟨hcount, -⟩ | ⟨-, hrest⟩
      · have hzero : p₁.count = 0 := hcount
        rw [Page.isEmpty, Array.isEmpty_eq_false_iff] at hp
        exact absurd (Array.eq_empty_of_size_eq_zero hzero) hp
      · exact hrest

/-- All pages up to and including the first empty one. -/
def drain (logging : Bool) (d : Direction) (limit : Int64) (f : Filter)
    (pageSize : UInt64) (c : σ) : Outcome Misuse σ (List Page) :=
  match _h : fetch logging d limit f pageSize c with
  | ⟨.error m, c', events⟩ => ⟨.error m, c', events⟩
  | ⟨.ok p, c', events⟩ =>
      if _hp : p.isEmpty then ⟨.ok [p], c', events⟩
      else
        ((drain logging d limit f pageSize c').andThen
          fun c rest => .ok c (p :: rest)).after events
termination_by Cursor.remaining d c
decreasing_by exact fetch_remaining _h (Bool.eq_false_iff.mpr _hp)

end PagedScan
