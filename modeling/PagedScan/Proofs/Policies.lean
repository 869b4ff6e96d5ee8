import Mathlib.Order.Bounds.Basic
import PagedScan.Proofs.SearchPages
import PagedScan.Proofs.SteadyScan

/-!
# The two policies agree up to the first failure

A search asks its cursor after every query whether it has failed, and the policy
decides what follows once it has: the queries that are left are run all the
same, or they are left out. Until then the policy is not looked at. So both
searches begin with the same queries run from the same states, and part for good
behind the first one after which the cursor has an error to show. What the
cursor shows after later queries makes no difference to either, since the first
failure is the one that is kept.

None of this depends on what the cursor does. `Trail` runs the queries with no
policy at all and writes down, for each of them, its page and the state right
after it. That such a trail exists is all that is asked of a cursor: each query
comes to a page, from the state in which the one before it left the cursor. Two
searches along one trail are then compared with the trail instead of with each
other, split at its first failure. A sound cursor has a trail from every state.
-/

namespace PagedScan

variable {σ : Type} [Cursor σ]

/-- The queries, the first one with number `index`, are run one after the other
from the state `c`, whatever becomes of them: the page of each, with the state
that the cursor is in right after it. -/
inductive Trail (logging : Bool) (pageSize : UInt64) :
    Nat → List Query → σ → List (Page × σ) → Prop
  | nil (index : Nat) (c : σ) : Trail logging pageSize index [] c []
  | cons {index : Nat} {q : Query} {queries : List Query} {c c₁ : σ} {p : Page}
      {trail : List (Page × σ)} (run : (q.run logging pageSize index c).Yields c₁ p)
      (rest : Trail logging pageSize (index + 1) queries c₁ trail) :
      Trail logging pageSize index (q :: queries) c ((p, c₁) :: trail)

variable {logging : Bool} {pageSize : UInt64} {index : Nat} {queries : List Query} {c : σ}
  {trail : List (Page × σ)}

theorem Trail.length_eq (h : Trail logging pageSize index queries c trail) :
    trail.length = queries.length := by
  induction h with
  | nil => rfl
  | cons _ _ ih => rw [List.length_cons, List.length_cons, ih]

theorem exists_trail [SoundCursor σ] (logging : Bool) (pageSize : UInt64)
    (queries : List Query) (index : Nat) (c : σ) :
    ∃ trail, Trail logging pageSize index queries c trail := by
  induction queries generalizing index c with
  | nil => exact ⟨[], .nil index c⟩
  | cons q queries ih =>
      obtain ⟨c₁, p, hrun⟩ := q.steady_run pageSize index c
      obtain ⟨trail, hrest⟩ := ih (index + 1) c₁
      exact ⟨_, .cons (hrun logging) hrest⟩

/-! ## Searches along a trail -/

/-- The search that leaves queries out ends with the first one that fails. -/
theorem searchFrom_cons_aborted {settings : Settings} {q : Query} {c₁ : σ} {p : Page}
    {e : Error} (hpolicy : settings.policy = .abort)
    (hrun : (q.run logging settings.pageSize index c).Yields c₁ p)
    (hfailure : Cursor.failure c₁ = some e) :
    (searchFrom logging settings index (q :: queries) c).Yields c₁
      ((Results.blank settings queries.length).consFailed p ⟨index, e⟩) := by
  refine hrun.andThen ?_
  rw [hfailure]
  refine Outcome.Yields.report.andThen ?_
  rw [hpolicy]
  exact .ok

/-- The search that goes on has the pages of the whole trail. -/
theorem exists_searchFrom_proceed (h : Trail logging pageSize index queries c trail) :
    ∃ r c', (searchFrom logging ⟨pageSize, .proceed⟩ index queries c).Yields c' r ∧
      r.pages = trail.map Prod.fst := by
  induction h with
  | nil index c => exact ⟨.empty, c, .ok, rfl⟩
  | @cons index q queries c c₁ p trail hrun _ ih =>
      obtain ⟨r, c', hrest, hpages⟩ := ih
      cases hfailure : Cursor.failure c₁ with
      | none =>
          refine ⟨_, c', searchFrom_cons hrun hfailure hrest, ?_⟩
          rw [Results.cons, hpages, List.map_cons]
      | some e =>
          refine ⟨_, c', searchFrom_cons_failed rfl hrun hfailure hrest, ?_⟩
          rw [Results.consFailed, hpages, List.map_cons]

/-- Queries that do not fail put their pages in front of what the others come to,
under either policy. -/
theorem exists_searchFrom_behind {before rest : List (Page × σ)}
    (hclean : ∀ x ∈ before, Cursor.failure x.2 = none)
    (h : Trail logging pageSize index queries c (before ++ rest)) :
    ∃ left c₁, Trail logging pageSize (index + before.length) left c₁ rest ∧
      ∀ {policy r c'},
        (searchFrom logging ⟨pageSize, policy⟩ (index + before.length) left c₁).Yields c' r →
        (searchFrom logging ⟨pageSize, policy⟩ index queries c).Yields c'
          ⟨before.map Prod.fst ++ r.pages, r.failure⟩ := by
  induction before generalizing index queries c with
  | nil => exact ⟨queries, c, h, id⟩
  | cons x before ih =>
      obtain ⟨hfirst, hbefore⟩ := List.forall_mem_cons.mp hclean
      cases h with
      | @cons _ q queries _ c₁ p _ hrun hrest =>
          obtain ⟨left, c₂, htrail, hsearch⟩ := ih hbefore hrest
          have hindex : index + 1 + before.length = index + ((p, c₁) :: before).length := by
            rw [List.length_cons]
            omega
          rw [hindex] at htrail hsearch
          refine ⟨left, c₂, htrail, fun {policy r c'} h => ?_⟩
          have hcons : (searchFrom logging ⟨pageSize, policy⟩ index (q :: queries) c).Yields c' _ :=
            searchFrom_cons hrun hfirst (hsearch h)
          exact hcons

/-- On a trail without a failure the policy does not matter. -/
theorem exists_searchFrom_clean (h : Trail logging pageSize index queries c trail)
    (hclean : ∀ x ∈ trail, Cursor.failure x.2 = none) :
    ∃ c', ∀ policy, (searchFrom logging ⟨pageSize, policy⟩ index queries c).Yields c'
      ⟨trail.map Prod.fst, none⟩ := by
  rw [← List.append_nil trail] at h
  obtain ⟨left, c', hnone, hsearch⟩ := exists_searchFrom_behind hclean h
  cases hnone
  refine ⟨c', fun policy => ?_⟩
  have hall : (searchFrom logging ⟨pageSize, policy⟩ index queries c).Yields c' _ := hsearch .ok
  rwa [Results.empty, List.append_nil] at hall

/-- Up to the first failure both searches have the pages of the trail. Behind it
one has them still, and the other has empty pages. -/
theorem exists_searchFrom_split {before after : List (Page × σ)} {p : Page} {c' : σ} {e : Error}
    (hclean : ∀ x ∈ before, Cursor.failure x.2 = none) (hfailure : Cursor.failure c' = some e)
    (h : Trail logging pageSize index queries c (before ++ (p, c') :: after)) :
    (∃ c₁, (searchFrom logging ⟨pageSize, .proceed⟩ index queries c).Yields c₁
      ⟨before.map Prod.fst ++ p :: after.map Prod.fst, some ⟨index + before.length, e⟩⟩) ∧
    (searchFrom logging ⟨pageSize, .abort⟩ index queries c).Yields c'
      ⟨before.map Prod.fst ++ p :: List.replicate after.length (Page.ofSize pageSize),
        some ⟨index + before.length, e⟩⟩ := by
  obtain ⟨left, c₀, hrest, hsearch⟩ := exists_searchFrom_behind hclean h
  cases hrest with
  | cons hrun hrest =>
      constructor
      · obtain ⟨r, c₁, hgoes, hpages⟩ := exists_searchFrom_proceed hrest
        rw [← hpages]
        exact ⟨c₁, hsearch (searchFrom_cons_failed rfl hrun hfailure hgoes)⟩
      · rw [hrest.length_eq]
        exact hsearch (searchFrom_cons_aborted rfl hrun hfailure)

/-! ## The first failure -/

/-- A trail has no failure, or it splits at its first one. -/
theorem clean_or_split (trail : List (Page × σ)) :
    (∀ x ∈ trail, Cursor.failure x.2 = none) ∨
      ∃ before p c' e after, trail = before ++ (p, c') :: after ∧
        (∀ x ∈ before, Cursor.failure x.2 = none) ∧ Cursor.failure c' = some e := by
  induction trail with
  | nil => exact .inl (by simp)
  | cons x trail ih =>
      cases hfailure : Cursor.failure x.2 with
      | some e => exact .inr ⟨[], x.1, x.2, e, trail, rfl, by simp, hfailure⟩
      | none =>
          rcases ih with hclean | ⟨before, p, c', e, after, rfl, hbefore, hfailed⟩
          · exact .inl (List.forall_mem_cons.mpr ⟨hfailure, hclean⟩)
          · exact .inr ⟨x :: before, p, c', e, after, rfl,
              List.forall_mem_cons.mpr ⟨hfailure, hbefore⟩, hfailed⟩

theorem isLeast_length {before after : List (Page × σ)} {p : Page} {c' : σ} {e : Error}
    (hclean : ∀ x ∈ before, Cursor.failure x.2 = none) (hfailure : Cursor.failure c' = some e) :
    IsLeast {i | ∃ x, (before ++ (p, c') :: after)[i]? = some x ∧
      (Cursor.failure x.2).isSome} before.length := by
  constructor
  · refine ⟨(p, c'), ?_, by rw [hfailure]; rfl⟩
    rw [List.getElem?_append_right (Nat.le_refl _), Nat.sub_self, List.getElem?_cons_zero]
  · rintro i ⟨x, hx, hfailed⟩
    by_contra hlt
    rw [List.getElem?_append_left (by omega)] at hx
    rw [hclean x (List.mem_of_getElem? hx)] at hfailed
    cases hfailed

/-! ## The law of the policies -/

/-- Along any trail, from the same state of any cursor: the search that goes on
after a failure and the one that leaves the other queries out both answer, with
one page for each query and with the same failure, which is the first one on the
trail if there is any. Their pages are the same as far as the query that failed,
and behind it the second search has empty pages with room for a page size.
Without a failure they have the same results and leave the cursor in the same
state. A cursor of a store has a trail from every state, and so has a failing
cursor around it. -/
theorem search_policies (logging : Bool) (pageSize : UInt64) (queries : List Query) :
    (∀ {σ : Type} [Cursor σ] (c : σ) (trail : List (Page × σ)),
      Trail logging pageSize 0 queries c trail →
      ∃ kept cut c₁ c₂,
        (search logging ⟨pageSize, .proceed⟩ queries c).Yields c₁ kept ∧
        (search logging ⟨pageSize, .abort⟩ queries c).Yields c₂ cut ∧
        kept.pages.length = queries.length ∧ cut.pages.length = queries.length ∧
        kept.pages = trail.map Prod.fst ∧ cut.failure = kept.failure ∧
        (kept.failure = none ↔ ∀ x ∈ trail, Cursor.failure x.2 = none) ∧
        (kept.failure = none → cut = kept ∧ c₂ = c₁) ∧
        ∀ i e, kept.failure = some ⟨i, e⟩ →
          IsLeast {j | ∃ x, trail[j]? = some x ∧ (Cursor.failure x.2).isSome} i ∧
          (∃ x, trail[i]? = some x ∧ Cursor.failure x.2 = some e) ∧
          cut.pages.take (i + 1) = kept.pages.take (i + 1) ∧
          ∀ p ∈ cut.pages.drop (i + 1),
            p.toList = [] ∧ p.capacity = if pageSize = 0 then 512 else pageSize.toNat) ∧
    (∀ (s : Store) (c : StoreCursor s), ∃ trail, Trail logging pageSize 0 queries c trail) ∧
    ∀ (s : Store) (c : FailingCursor (StoreCursor s)),
      ∃ trail, Trail logging pageSize 0 queries c trail := by
  refine ⟨?_, fun s c => exists_trail _ _ _ _ c, fun s c => exists_trail _ _ _ _ c⟩
  intro σ _ c trail htrail
  have hlength := htrail.length_eq
  rcases clean_or_split trail with hclean | ⟨before, p, c', e, after, rfl, hbefore, hfailure⟩
  · obtain ⟨c', hsearch⟩ := exists_searchFrom_clean htrail hclean
    refine ⟨_, _, c', c', hsearch .proceed, hsearch .abort, ?_, ?_, rfl, rfl, ?_, ?_, ?_⟩
    · rw [List.length_map, hlength]
    · rw [List.length_map, hlength]
    · exact ⟨fun _ => hclean, fun _ => rfl⟩
    · exact fun _ => ⟨rfl, rfl⟩
    · intro i e h
      cases h
  · obtain ⟨⟨c₁, hgoes⟩, hstops⟩ := exists_searchFrom_split hbefore hfailure htrail
    rw [Nat.zero_add] at hgoes hstops
    rw [List.length_append, List.length_cons] at hlength
    refine ⟨_, _, c₁, c', hgoes, hstops, ?_, ?_, ?_, rfl, ?_, ?_, ?_⟩
    · simp only [List.length_append, List.length_cons, List.length_map]
      exact hlength
    · simp only [List.length_append, List.length_cons, List.length_map, List.length_replicate]
      exact hlength
    · rw [List.map_append, List.map_cons]
    · have hmem : (p, c') ∈ before ++ (p, c') :: after := by simp
      constructor
      · intro h
        cases h
      · intro hclean
        rw [hclean _ hmem] at hfailure
        cases hfailure
    · intro h
      cases h
    · rintro _ _ ⟨⟩
      have hlen : (before.map Prod.fst ++ [p]).length = before.length + 1 := by
        rw [List.length_append, List.length_map, List.length_singleton]
      have htake : ∀ rest, (before.map Prod.fst ++ p :: rest).take (before.length + 1) =
          before.map Prod.fst ++ [p] := fun rest => by
        rw [List.append_cons, List.take_left' hlen]
      refine ⟨isLeast_length hbefore hfailure, ⟨(p, c'), by simp, hfailure⟩, ?_, ?_⟩
      · exact (htake _).trans (htake _).symm
      · intro p' hp'
        rw [List.append_cons, List.drop_left' hlen] at hp'
        rw [List.eq_of_mem_replicate hp']
        exact ⟨rfl, rfl⟩

/-- Three queries for three entries each, and a cursor that fails after four
steps, so in the second one. -/
theorem search_policies_three_queries :
    ∃ kept cut c₁ c₂,
      (search false ⟨0, .proceed⟩ [.all, .all, .all]
        (FailingCursor.ofCursor (Store.ofNames ["a", "b", "c"]).cursor 4)).Yields c₁ kept ∧
      (search false ⟨0, .abort⟩ [.all, .all, .all]
        (FailingCursor.ofCursor (Store.ofNames ["a", "b", "c"]).cursor 4)).Yields c₂ cut ∧
      cut.failure = kept.failure ∧ kept.failure = some ⟨1, FailingCursor.injected⟩ ∧
      cut.pages.take 2 = kept.pages.take 2 ∧
      ∀ p ∈ cut.pages.drop 2, p.toList = [] ∧ p.capacity = 512 := by
  obtain ⟨hagree, -, hends⟩ := search_policies false 0 [.all, .all, .all]
  obtain ⟨trail, htrail⟩ := hends (.ofNames ["a", "b", "c"]) (.ofCursor (Store.cursor _) 4)
  obtain ⟨kept, cut, c₁, c₂, hkept, hcut, -, -, -, hsame, -, -, hfailed⟩ := hagree _ trail htrail
  have hfailure : (search false ⟨0, .proceed⟩ [.all, .all, .all]
      (FailingCursor.ofCursor (Store.ofNames ["a", "b", "c"]).cursor 4)).answer.toOption.map
        Results.failure = some (some ⟨1, FailingCursor.injected⟩) := by
    decide +kernel
  rw [hkept.answer] at hfailure
  simp only [Except.toOption, Option.map_some, Option.some.injEq] at hfailure
  obtain ⟨-, -, htake, hdrop⟩ := hfailed 1 _ hfailure
  exact ⟨kept, cut, c₁, c₂, hkept, hcut, hsame, hfailure, htake, hdrop⟩

end PagedScan
