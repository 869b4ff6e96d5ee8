import PagedScan.Proofs.Selection

/-!
# A search answers every query by its selection

The queries of a search share one cursor, and each of them leaves it somewhere
else. That does not show in the pages, since a query begins by seeking and a
cursor of a store keeps nothing across a seek: whatever state it is in, a query
comes to a page with its selection. The search then is one query after the
other, with no failure on the way, because a cursor of a store has none.
-/

namespace PagedScan

variable {σ : Type} [Cursor σ] {logging : Bool} {settings : Settings} {index : Nat}
  {q : Query} {queries : List Query} {c c₁ c₂ : σ} {p : Page} {r : Results}

/-! ## One query of a search -/

theorem searchFrom_cons (hrun : (q.run logging settings.pageSize index c).Yields c₁ p)
    (hfailure : Cursor.failure c₁ = none)
    (hrest : (searchFrom logging settings (index + 1) queries c₁).Yields c₂ r) :
    (searchFrom logging settings index (q :: queries) c).Yields c₂ (r.cons p) := by
  refine hrun.andThen ?_
  rw [hfailure]
  exact hrest.andThen .ok

/-- A query that fails does not keep the others from being run. -/
theorem searchFrom_cons_failed {e : Error} (hpolicy : settings.policy = .proceed)
    (hrun : (q.run logging settings.pageSize index c).Yields c₁ p)
    (hfailure : Cursor.failure c₁ = some e)
    (hrest : (searchFrom logging settings (index + 1) queries c₁).Yields c₂ r) :
    (searchFrom logging settings index (q :: queries) c).Yields c₂
      (r.consFailed p ⟨index, e⟩) := by
  refine hrun.andThen ?_
  rw [hfailure]
  refine Outcome.Yields.report.andThen ?_
  rw [hpolicy]
  exact hrest.andThen .ok

/-! ## All queries -/

variable {s : Store}

theorem Query.exists_run (q : Query) (logging : Bool) (pageSize : UInt64) (index : Nat)
    (c : StoreCursor s) :
    ∃ c', (q.run logging pageSize index c).Yields c'
      (pageOf q.limit pageSize (q.selection s)) := by
  obtain ⟨c', hpasses, hstops⟩ := q.exists_run_way logging pageSize c
  exact ⟨c', run_of_passes (q.detour c) hpasses (fun _ => admits_of_mem_selection)
    (fun _ => length_selection_le) hstops⟩

theorem exists_searchFrom (logging : Bool) (settings : Settings) (queries : List Query)
    (index : Nat) (c : StoreCursor s) :
    ∃ r c', (searchFrom logging settings index queries c).Yields c' r ∧
      r.failure = none ∧
      r.pages.map Page.toList = queries.map fun q => q.selection s := by
  induction queries generalizing index c with
  | nil => exact ⟨.empty, c, .ok, rfl, rfl⟩
  | cons q queries ih =>
      obtain ⟨c₁, hrun⟩ := q.exists_run logging settings.pageSize index c
      obtain ⟨r, c₂, hrest, hfailure, hpages⟩ := ih (index + 1) c₁
      refine ⟨_, c₂, searchFrom_cons hrun rfl hrest, hfailure, ?_⟩
      rw [Results.cons, List.map_cons, List.map_cons, toList_pageOf, hpages]

/-- Whatever state a cursor of a store is in, a search with it answers every
query with a page of the query's selection from the store, under either policy
and with any page size, and no failure is reported. -/
theorem search_selects (s : Store) (c : StoreCursor s) (logging : Bool)
    (settings : Settings) (queries : List Query) :
    ∃ r c', (search logging settings queries c).Yields c' r ∧
      r.failure = none ∧
      r.pages.map Page.toList = queries.map fun q => q.selection s :=
  exists_searchFrom logging settings queries 0 c

end PagedScan
