import Mathlib.Algebra.GroupWithZero.Nat
import Mathlib.Order.Bounds.Basic
import PagedScan.Proofs.FaultWalk
import PagedScan.Proofs.SearchPages

/-!
# A search that meets a fault loses one page at most

On a cursor that fails after some number of steps, each query uses up steps:
one if it steps over its start, and one for every entry it takes, the last one
included, since the cursor is moved behind it before the page is found to be
full. So the query in which the fault falls is the first one whose steps,
together with those of the queries before it, are more than there are.

That query gets the part of its selection that the cursor passes until then. It
may even get all of it, if the step that fails is the one behind the last
entry; the failure is reported all the same. A query after it seeks, which
clears the failure, and nothing is counted any more. So no other page is
touched, and the failure is reported once, for the query it fell in.
-/

namespace PagedScan

variable {s : Store}

namespace Query

/-- How many steps the query takes on the store. -/
def steps (q : Query) (s : Store) : Nat :=
  (q.skips s).toNat + (q.selection s).length

theorem length_skipped (q : Query) (s : Store) :
    (q.skipped s).length = (q.skips s).toNat := by
  rcases skipped_cases q s with ⟨hskips, hnil⟩ | ⟨hskips, e, hone, -⟩
  · rw [hskips, hnil]
    rfl
  · rw [hskips, hone]
    rfl

theorem length_way (q : Query) (s : Store) :
    (q.skipped s ++ q.selection s).length = q.steps s := by
  rw [List.length_append, length_skipped, steps]

/-! ## One query -/

theorem seek_failing {σ : Type} [Cursor σ] (q : Query) (c : σ) (stepsLeft : Option Nat)
    (failure : Option Error) :
    q.seek (⟨c, stepsLeft, failure⟩ : FailingCursor σ) = ⟨q.seek c, stepsLeft, none⟩ := by
  rw [seek, seek]
  split
  · rfl
  · rfl

theorem Detour.failing {σ : Type} [Cursor σ] {q : Query} {c : σ} {es : List Entry}
    (stepsLeft : Option Nat) (h : Detour q c es) :
    Detour q (⟨c, stepsLeft, none⟩ : FailingCursor σ) es := by
  cases h with
  | stays hstays =>
      exact .stays fun hskip key hkey hvalid =>
        hstays hskip key hkey (FailingCursor.valid_eq.symm.trans hvalid)
  | skips hskip hkey => exact .skips hskip hkey

theorem detour_failing (q : Query) (c : StoreCursor s) (stepsLeft : Option Nat)
    (failure : Option Error) :
    Detour q (q.seek (⟨c, stepsLeft, failure⟩ : FailingCursor (StoreCursor s)))
      (q.skipped s) := by
  rw [seek_failing]
  exact (q.detour c).failing stepsLeft

/-- With steps enough left, a query takes its whole selection. -/
theorem exists_run_within (q : Query) (logging : Bool) (pageSize : UInt64) (index : Nat)
    (c : StoreCursor s) (stepsLeft : Option Nat) (failure : Option Error)
    (h : ∀ n, stepsLeft = some n → q.steps s ≤ n) :
    ∃ c', (q.run logging pageSize index
        (⟨c, stepsLeft, failure⟩ : FailingCursor (StoreCursor s))).Yields
      ⟨c', stepsLeft.map (· - q.steps s), none⟩ (pageOf q.limit pageSize (q.selection s)) := by
  obtain ⟨c', hpasses, hstops⟩ := q.exists_run_way logging pageSize c
  rw [← length_way] at h ⊢
  refine ⟨c', run_of_passes (q.detour_failing c stepsLeft failure) ?_
    (fun _ => admits_of_mem_selection) (fun _ => length_selection_le)
    (FailingCursor.stops_of_inner _ hstops)⟩
  rw [seek_failing]
  exact FailingCursor.passes_within hpasses h

/-- With too few, it takes what the cursor passes before it fails. -/
theorem exists_run_failing (q : Query) (logging : Bool) (pageSize : UInt64) (index : Nat)
    (c : StoreCursor s) {n : Nat} (failure : Option Error) (h : n < q.steps s) :
    ∃ c', (q.run logging pageSize index
        (⟨c, some n, failure⟩ : FailingCursor (StoreCursor s))).Yields
      ⟨c', none, some FailingCursor.injected⟩
      (pageOf q.limit pageSize ((q.selection s).take (n + 1 - (q.skips s).toNat))) := by
  obtain ⟨c₁, hpasses, -⟩ := q.exists_run_way logging pageSize c
  rw [← length_way] at h
  obtain ⟨c', -, hfails⟩ := FailingCursor.passes_failing hpasses h
  -- The start is passed in any case, since there is always one entry to pass.
  have hskipped : (q.skipped s).length ≤ n + 1 := by
    rw [length_skipped]
    have := Bool.toNat_le (q.skips s)
    omega
  rw [List.take_append, List.take_of_length_le hskipped, length_skipped] at hfails
  refine ⟨c', run_of_passes (q.detour_failing c (some n) failure) ?_ (fun e he => ?_)
    (fun m hm => ?_) (FailingCursor.stops_of_failed _ _)⟩
  · rw [seek_failing]
    exact hfails
  · exact admits_of_mem_selection (List.mem_of_mem_take he)
  · exact Nat.le_trans (List.length_take_le' _ _) (length_selection_le hm)

end Query

/-! ## All queries -/

/-- How many steps these queries take on the store together. -/
def stepsOf (s : Store) (queries : List Query) : Nat :=
  (queries.map fun q => q.steps s).sum

theorem stepsOf_cons (s : Store) (q : Query) (queries : List Query) :
    stepsOf s (q :: queries) = q.steps s + stepsOf s queries := by
  rw [stepsOf, List.map_cons, List.sum_cons, stepsOf]

/-- What a search that fails in query `f`, begun with `n` steps left, has on its
pages: for that query the entries passed before the failure, and for every other
query its selection. -/
def pagesFailing (s : Store) (f n : Nat) (queries : List Query) : List (List Entry) :=
  queries.mapIdx fun i q =>
    if i = f then (q.selection s).take (n + 1 - (q.skips s).toNat) else q.selection s

theorem pagesFailing_zero (s : Store) (n : Nat) (q : Query) (queries : List Query) :
    pagesFailing s 0 n (q :: queries) =
      (q.selection s).take (n + 1 - (q.skips s).toNat) ::
        queries.map fun q => q.selection s := by
  rw [pagesFailing, List.mapIdx_cons, if_pos rfl]
  congr 1
  refine List.ext_getElem (by simp) fun i _ _ => ?_
  rw [List.getElem_mapIdx, if_neg (Nat.succ_ne_zero i), List.getElem_map]

theorem pagesFailing_succ (s : Store) (f n : Nat) (q : Query) (queries : List Query) :
    pagesFailing s (f + 1) n (q :: queries) = q.selection s :: pagesFailing s f n queries := by
  rw [pagesFailing, List.mapIdx_cons, if_neg (Nat.succ_ne_zero f).symm]
  simp only [Nat.add_right_cancel_iff, pagesFailing]

theorem exists_searchFrom_within (logging : Bool) (settings : Settings)
    (queries : List Query) (index : Nat) (c : StoreCursor s) (stepsLeft : Option Nat)
    (failure : Option Error) (h : ∀ n, stepsLeft = some n → stepsOf s queries ≤ n) :
    ∃ r c', (searchFrom logging settings index queries
        (⟨c, stepsLeft, failure⟩ : FailingCursor (StoreCursor s))).Yields c' r ∧
      r.failure = none ∧
      r.pages.map Page.toList = queries.map fun q => q.selection s := by
  induction queries generalizing index c stepsLeft failure with
  | nil => exact ⟨.empty, _, .ok, rfl, rfl⟩
  | cons q queries ih =>
      simp only [stepsOf_cons] at h
      obtain ⟨c₁, hrun⟩ := q.exists_run_within logging settings.pageSize index c stepsLeft
        failure fun n hn => Nat.le_trans (Nat.le_add_right _ _) (h n hn)
      obtain ⟨r, c₂, hrest, hfailure, hpages⟩ :=
        ih (index + 1) c₁ _ none (FailingCursor.le_of_map_sub h)
      refine ⟨_, c₂, searchFrom_cons hrun rfl hrest, hfailure, ?_⟩
      rw [Results.cons, List.map_cons, List.map_cons, toList_pageOf, hpages]

theorem exists_searchFrom_failing (logging : Bool) (settings : Settings)
    (hpolicy : settings.policy = .proceed) (queries : List Query) (index : Nat)
    (c : StoreCursor s) {n : Nat} (failure : Option Error) (h : n < stepsOf s queries) :
    ∃ f r c', (searchFrom logging settings index queries
        (⟨c, some n, failure⟩ : FailingCursor (StoreCursor s))).Yields c' r ∧
      f < queries.length ∧
      stepsOf s (queries.take f) ≤ n ∧ n < stepsOf s (queries.take (f + 1)) ∧
      r.failure = some ⟨index + f, FailingCursor.injected⟩ ∧
      r.pages.map Page.toList =
        pagesFailing s f (n - stepsOf s (queries.take f)) queries := by
  induction queries generalizing index c n failure with
  | nil => cases h
  | cons q queries ih =>
      rcases Nat.lt_or_ge n (q.steps s) with hlt | hge
      · obtain ⟨c₁, hrun⟩ := q.exists_run_failing logging settings.pageSize index c failure hlt
        obtain ⟨r, c₂, hrest, -, hpages⟩ := exists_searchFrom_within logging settings queries
          (index + 1) c₁ none (some FailingCursor.injected) (by rintro _ ⟨⟩)
        refine ⟨0, _, c₂, searchFrom_cons_failed hpolicy hrun rfl hrest, Nat.succ_pos _,
          Nat.zero_le n, ?_, rfl, ?_⟩
        · rw [List.take_succ_cons, stepsOf_cons]
          omega
        · rw [Results.consFailed, List.map_cons, toList_pageOf, hpages, pagesFailing_zero]
          rfl
      · obtain ⟨c₁, hrun⟩ := q.exists_run_within logging settings.pageSize index c (some n)
          failure (by rintro _ ⟨⟩; exact hge)
        rw [stepsOf_cons] at h
        obtain ⟨f, r, c₂, hrest, hf, hlow, hhigh, hfailure, hpages⟩ :=
          ih (index + 1) c₁ (n := n - q.steps s) none (by omega)
        refine ⟨f + 1, _, c₂, searchFrom_cons hrun rfl hrest, Nat.succ_lt_succ hf, ?_, ?_, ?_, ?_⟩
        · rw [List.take_succ_cons, stepsOf_cons]
          omega
        · rw [List.take_succ_cons, stepsOf_cons]
          omega
        · rw [Results.cons, hfailure, show index + 1 + f = index + (f + 1) by omega]
        · rw [Results.cons, List.map_cons, toList_pageOf, hpages, List.take_succ_cons,
            stepsOf_cons, pagesFailing_succ, Nat.sub_sub]

theorem stepsOf_take_le (s : Store) (queries : List Query) {i j : Nat} (h : i ≤ j) :
    stepsOf s (queries.take i) ≤ stepsOf s (queries.take j) := by
  obtain ⟨k, rfl⟩ := Nat.exists_eq_add_of_le h
  rw [List.take_add, stepsOf, stepsOf, List.map_append, List.sum_append]
  exact Nat.le_add_right _ _

/-- A search under the policy to go on, with a cursor that fails after `n` steps
and is in any state when it begins. The pages it would have without a fault are
the selections. With `n` steps enough for all queries it has these pages, and no
failure. Otherwise the failure is in the first query for which the steps do not
suffice, and only the page of that query is cut. -/
theorem search_failing (s : Store) (c : StoreCursor s) (n : Nat) (failure : Option Error)
    (logging : Bool) (pageSize : UInt64) (queries : List Query) :
    (∃ r c', (search logging ⟨pageSize, .proceed⟩ queries c).Yields c' r ∧
      r.pages.map Page.toList = queries.map fun q => q.selection s) ∧
    (stepsOf s queries ≤ n → ∃ r c',
      (search logging ⟨pageSize, .proceed⟩ queries
        (⟨c, some n, failure⟩ : FailingCursor (StoreCursor s))).Yields c' r ∧
      r.failure = none ∧
      r.pages.map Page.toList = queries.map fun q => q.selection s) ∧
    (n < stepsOf s queries → ∃ f r c',
      (search logging ⟨pageSize, .proceed⟩ queries
        (⟨c, some n, failure⟩ : FailingCursor (StoreCursor s))).Yields c' r ∧
      f < queries.length ∧ IsLeast {i | n < stepsOf s (queries.take (i + 1))} f ∧
      r.failure = some ⟨f, FailingCursor.injected⟩ ∧
      r.pages.map Page.toList =
        pagesFailing s f (n - stepsOf s (queries.take f)) queries) := by
  refine ⟨?_, fun h => ?_, fun h => ?_⟩
  · obtain ⟨r, c', hsearch, -, hpages⟩ :=
      exists_searchFrom logging ⟨pageSize, .proceed⟩ queries 0 c
    exact ⟨r, c', hsearch, hpages⟩
  · exact exists_searchFrom_within logging _ queries 0 c (some n) failure
      (by rintro _ ⟨⟩; exact h)
  · obtain ⟨f, r, c', hsearch, hf, hlow, hhigh, hfailure, hpages⟩ :=
      exists_searchFrom_failing logging ⟨pageSize, .proceed⟩ rfl queries 0 c failure h
    refine ⟨f, r, c', hsearch, hf, ⟨hhigh, fun i hi => ?_⟩, ?_, hpages⟩
    · change n < stepsOf s (queries.take (i + 1)) at hi
      by_contra hlt
      have := stepsOf_take_le s queries (show i + 1 ≤ f by omega)
      omega
    · rw [hfailure, Nat.zero_add]

/-- Three queries of three steps each, the second one of which steps over its
start. Nine steps suffice for them. With four, the fault falls in the second
one, which has stepped over its start and taken an entry by then. -/
theorem search_failing_three_queries :
    (∃ r c', (search false ⟨4, .proceed⟩ [.all, ⟨some [97], none, none, 0, false, true⟩, .all]
        (FailingCursor.ofCursor (Store.ofNames ["a", "b", "c"]).cursor 9)).Yields c' r ∧
      r.failure = none ∧
      r.pages.map (fun p => p.toList.map Entry.key) =
        [[[97], [98], [99]], [[98], [99]], [[97], [98], [99]]]) ∧
    (∃ r c', (search false ⟨4, .proceed⟩ [.all, ⟨some [97], none, none, 0, false, true⟩, .all]
        (FailingCursor.ofCursor (Store.ofNames ["a", "b", "c"]).cursor 4)).Yields c' r ∧
      r.failure = some ⟨1, FailingCursor.injected⟩ ∧
      r.pages.map (fun p => p.toList.map Entry.key) =
        [[[97], [98], [99]], [[98]], [[97], [98], [99]]]) := by
  have hkeys : ∀ pages : List Page, pages.map (fun p => p.toList.map Entry.key) =
      (pages.map Page.toList).map fun entries => entries.map Entry.key :=
    fun pages => (List.map_map ..).symm
  constructor
  · obtain ⟨r, c', hsearch, hfailure, hpages⟩ :=
      (search_failing (.ofNames ["a", "b", "c"]) (Store.cursor _) 9 none false 4
        [.all, ⟨some [97], none, none, 0, false, true⟩, .all]).2.1 (by decide)
    exact ⟨r, c', hsearch, hfailure, by rw [hkeys, hpages]; decide⟩
  · obtain ⟨f, r, c', hsearch, -, hleast, hfailure, hpages⟩ :=
      (search_failing (.ofNames ["a", "b", "c"]) (Store.cursor _) 4 none false 4
        [.all, ⟨some [97], none, none, 0, false, true⟩, .all]).2.2 (by decide)
    have hone : IsLeast {i | 4 < stepsOf (.ofNames ["a", "b", "c"])
        (List.take (i + 1) [.all, ⟨some [97], none, none, 0, false, true⟩, .all])} 1 := by
      refine ⟨by decide, fun i hi => Nat.one_le_iff_ne_zero.mpr ?_⟩
      rintro rfl
      exact absurd hi (by decide)
    cases hleast.unique hone
    exact ⟨r, c', hsearch, hfailure, by rw [hkeys, hpages]; decide⟩

end PagedScan
