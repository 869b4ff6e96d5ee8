import PagedScan.Proofs.FaultWalk
import PagedScan.Proofs.Resumption

/-!
# Draining a cursor that fails

A drain ends at the first empty page, and there are two ways to come to one: the
stretch that the filter admits is used up, or the cursor has failed. The pages
do not tell which. The cursor does, since nothing seeks in the course of a drain
and so nothing clears the failure: it is still there when the drain has ended.

How many steps a drain takes does not depend on its pages either. Each entry is
one step, wherever the pages are cut, the last entry of the stretch included. So
a cursor with as many steps left as the stretch has entries is drained like the
cursor inside it, page by page. With fewer it fails in the step from the entry
at that number, which is on a page by then, and the drain delivers one entry
more than the cursor had steps left.

One fetch is looked at in `exists_round`, on the cursor inside and around it at
once, since the pages have to be the same and not just their entries. A round
that takes nothing has nothing left to take, whatever the limit, and this is all
that a drain has to know about limits.
-/

namespace PagedScan

namespace StoreCursor

variable {s : Store} {d : Direction} {f : Filter}

/-! ## One round -/

theorem exists_round (logging : Bool) (limit : Int64) (pageSize : UInt64) (c : StoreCursor s) :
    ∃ c', c.stretch d f = cut limit (c.stretch d f) ++ c'.stretch d f ∧
      (fetch logging d limit f pageSize c).Yields c'
        (pageOf limit pageSize (cut limit (c.stretch d f))) ∧
      (∀ stepsLeft, (∀ n, stepsLeft = some n → (cut limit (c.stretch d f)).length ≤ n) →
        (fetch logging d limit f pageSize (⟨c, stepsLeft, none⟩ : FailingCursor _)).Yields
          ⟨c', stepsLeft.map (· - (cut limit (c.stretch d f)).length), none⟩
          (pageOf limit pageSize (cut limit (c.stretch d f)))) ∧
      ∀ n, n < (cut limit (c.stretch d f)).length → ∃ c₁,
        (fetch logging d limit f pageSize (⟨c, some n, none⟩ : FailingCursor _)).Yields
          ⟨c₁, none, some FailingCursor.injected⟩
          (pageOf limit pageSize ((cut limit (c.stretch d f)).take (n + 1))) := by
  obtain ⟨c', hahead, hpasses, hstops⟩ :=
    exists_way logging limit f pageSize (List.nil_append (c.ahead d)).symm
  have hadmits : ∀ e ∈ taken d limit f (c.ahead d), f.admits d e.key = true :=
    fun _ => admits_of_mem_taken
  have hroom : ∀ m, limit? limit = some m → (taken d limit f (c.ahead d)).length ≤ m :=
    fun _ => length_taken_le
  refine ⟨c', stretch_eq_append hahead, fetch_of_passes hpasses hadmits hroom hstops,
    fun stepsLeft hleft => ?_, fun n hn => ?_⟩
  · exact fetch_of_passes (FailingCursor.passes_within hpasses hleft) hadmits hroom
      (FailingCursor.stops_of_inner _ hstops)
  · obtain ⟨c₁, -, hfails⟩ := FailingCursor.passes_failing hpasses hn
    refine ⟨c₁, fetch_of_passes hfails (fun e he => ?_) (fun m hm => ?_)
      (FailingCursor.stops_of_failed _ _)⟩
    · exact hadmits e (List.mem_of_mem_take he)
    · exact Nat.le_trans (List.length_take_le' _ _) (hroom m hm)

theorem length_stretch_lt {limit : Int64} {c c' : StoreCursor s} (hne : c.stretch d f ≠ [])
    (h : c.stretch d f = cut limit (c.stretch d f) ++ c'.stretch d f) :
    (c'.stretch d f).length < (c.stretch d f).length := by
  have hpos := List.length_pos_iff.mpr (mt (cut_eq_nil_iff limit).mp hne)
  have := congrArg List.length h
  rw [List.length_append] at this
  omega

/-! ## The whole drain -/

/-- A drain delivers the stretch, and it delivers the same pages from a failing
cursor that has steps enough left, or does not count them. -/
theorem exists_drain (logging : Bool) (limit : Int64) (pageSize : UInt64) (c : StoreCursor s) :
    ∃ pages c', (drain logging d limit f pageSize c).Yields c' pages ∧
      pages.flatMap Page.toList = c.stretch d f ∧
      ∀ stepsLeft, (∀ n, stepsLeft = some n → (c.stretch d f).length ≤ n) →
        (drain logging d limit f pageSize (⟨c, stepsLeft, none⟩ : FailingCursor _)).Yields
          ⟨c', stepsLeft.map (· - (c.stretch d f).length), none⟩ pages := by
  obtain ⟨c₁, hsplit, hfetch, hwithin, -⟩ := exists_round logging limit pageSize c (d := d) (f := f)
  by_cases hnil : c.stretch d f = []
  · have hcut := (cut_eq_nil_iff limit).mpr hnil
    rw [hcut] at hfetch hwithin
    refine ⟨_, c₁, drain_of_empty hfetch (toList_pageOf _ _ _), ?_, fun stepsLeft hleft => ?_⟩
    · rw [List.flatMap_singleton, toList_pageOf, hnil]
    · rw [hnil] at hleft ⊢
      exact drain_of_empty (hwithin stepsLeft hleft) (toList_pageOf _ _ _)
  · have hpage : (pageOf limit pageSize (cut limit (c.stretch d f))).toList ≠ [] := by
      rw [toList_pageOf]
      exact mt (cut_eq_nil_iff limit).mp hnil
    have hless := length_stretch_lt hnil hsplit
    obtain ⟨pages, c₂, hdrain, hpages, hrest⟩ := exists_drain logging limit pageSize c₁
    have hlength := congrArg List.length hsplit
    rw [List.length_append] at hlength
    refine ⟨_ :: pages, c₂, drain_of_nonempty hfetch hpage hdrain, ?_, fun stepsLeft hleft => ?_⟩
    · rw [List.flatMap_cons, toList_pageOf, hpages]
      exact hsplit.symm
    · have hfirst := hwithin stepsLeft fun n hn => by
        have := hleft n hn
        omega
      rw [hlength] at hleft ⊢
      rw [← FailingCursor.map_sub_map_sub]
      exact drain_of_nonempty hfirst hpage (hrest _ (FailingCursor.le_of_map_sub hleft))
termination_by (c.stretch d f).length

/-- With too few steps left, a drain delivers what the cursor passes until it
fails, and leaves it failed. -/
theorem exists_drain_failing (logging : Bool) (limit : Int64) (pageSize : UInt64)
    (c : StoreCursor s) {n : Nat} (hn : n < (c.stretch d f).length) :
    ∃ pages c', (drain logging d limit f pageSize
        (⟨c, some n, none⟩ : FailingCursor _)).Yields
          ⟨c', none, some FailingCursor.injected⟩ pages ∧
      pages.flatMap Page.toList = (c.stretch d f).take (n + 1) := by
  obtain ⟨c₁, hsplit, -, hwithin, hfails⟩ :=
    exists_round logging limit pageSize c (d := d) (f := f)
  have hne : c.stretch d f ≠ [] := List.ne_nil_of_length_pos (by omega)
  have hpos := List.length_pos_iff.mpr (mt (cut_eq_nil_iff limit).mp hne)
  rcases Nat.lt_or_ge n (cut limit (c.stretch d f)).length with hlt | hge
  · -- The page holds what was passed, and the one after it is empty.
    obtain ⟨c₂, hfetch⟩ := hfails n hlt
    have hlast : (fetch logging d limit f pageSize
        (⟨c₂, none, some FailingCursor.injected⟩ : FailingCursor _)).Yields _
          (pageOf limit pageSize []) :=
      fetch_of_passes (.nothing _) (by simp) (by simp) (FailingCursor.stops_of_failed _ _)
    refine ⟨_, c₂, drain_of_nonempty hfetch ?_ (drain_of_empty hlast (toList_pageOf _ _ _)), ?_⟩
    · rw [toList_pageOf]
      exact List.ne_nil_of_length_pos (by rw [List.length_take]; omega)
    · rw [List.flatMap_cons, List.flatMap_singleton, toList_pageOf, toList_pageOf,
        List.append_nil]
      conv => rhs; rw [hsplit, List.take_append_of_le_length hlt]
  · have hless := length_stretch_lt hne hsplit
    have hlength := congrArg List.length hsplit
    rw [List.length_append] at hlength
    have hfirst := hwithin (some n) (by rintro _ ⟨⟩; exact hge)
    obtain ⟨pages, c₂, hdrain, hpages⟩ := exists_drain_failing logging limit pageSize c₁
      (n := n - (cut limit (c.stretch d f)).length) (by omega)
    refine ⟨_ :: pages, c₂, drain_of_nonempty hfirst ?_ hdrain, ?_⟩
    · rw [toList_pageOf]
      exact List.ne_nil_of_length_pos hpos
    · rw [List.flatMap_cons, toList_pageOf, hpages]
      conv => rhs; rw [hsplit, List.take_append, List.take_of_length_le (by omega)]
      congr 2
      omega
termination_by (c.stretch d f).length

end StoreCursor

/-! ## The law of draining -/

/-- A cursor of a store and a failing cursor around it that has not failed and
has `n` steps left, drained in the same way. The first drain delivers the stretch
that the filter admits. If its length is not more than `n`, the second one
delivers the same pages, shows no error and has counted one step for each entry.
If it is more, the second one delivers the first `n + 1` entries and shows the
error. So a drain that ends without an error to show has missed nothing. -/
theorem drain_failing (s : Store) (c : StoreCursor s) (n : Nat) (logging : Bool)
    (d : Direction) (limit : Int64) (f : Filter) (pageSize : UInt64) :
    ∃ pages c₀ pages' c',
      (drain logging d limit f pageSize c).Yields c₀ pages ∧
      pages.flatMap Page.toList = c.stretch d f ∧
      (drain logging d limit f pageSize
        (⟨c, some n, none⟩ : FailingCursor (StoreCursor s))).Yields c' pages' ∧
      ((c.stretch d f).length ≤ n → pages' = pages ∧ Cursor.status c' = .ok () ∧
        c' = ⟨c₀, some (n - (c.stretch d f).length), none⟩) ∧
      (n < (c.stretch d f).length →
        pages'.flatMap Page.toList = (c.stretch d f).take (n + 1) ∧
        Cursor.status c' = .error FailingCursor.injected) ∧
      (Cursor.status c' = .ok () → pages' = pages) := by
  obtain ⟨pages, c₀, hdrain, hpages, hwithin⟩ :=
    StoreCursor.exists_drain logging limit pageSize c (d := d) (f := f)
  rcases Nat.lt_or_ge n (c.stretch d f).length with hlt | hge
  · obtain ⟨pages', c', hfails, hpages'⟩ :=
      StoreCursor.exists_drain_failing logging limit pageSize c hlt
    refine ⟨pages, c₀, pages', _, hdrain, hpages, hfails, fun hle => ?_, fun _ => ⟨hpages', rfl⟩,
      fun hok => ?_⟩
    · omega
    · cases hok
  · have hwithin := hwithin (some n) (by rintro _ ⟨⟩; exact hge)
    refine ⟨pages, c₀, pages, _, hdrain, hpages, hwithin, fun _ => ⟨rfl, rfl, rfl⟩, fun hlt => ?_,
      fun _ => rfl⟩
    omega

/-- Three entries, two to a page. Three steps are enough. With one step, the
fault falls behind the second entry, where the page is full and nothing looks as
if an entry were missing. -/
theorem drain_failing_three_entries :
    (∃ pages c₀ c',
      (drain false .forward 2 {} 4
        (StoreCursor.first (.ofNames ["a", "b", "c"]) .forward fun _ => true)).Yields c₀ pages ∧
      (drain false .forward 2 {} 4 (FailingCursor.ofCursor
        (StoreCursor.first (.ofNames ["a", "b", "c"]) .forward fun _ => true) 3)).Yields
          c' pages ∧
      Cursor.status c' = .ok () ∧ c'.stepsLeft = some 0) ∧
    ∃ pages c', (drain false .forward 2 {} 4 (FailingCursor.ofCursor
        (StoreCursor.first (.ofNames ["a", "b", "c"]) .forward fun _ => true) 1)).Yields
          c' pages ∧
      (pages.flatMap Page.toList).map Entry.key = [[97], [98]] ∧
      Cursor.status c' = .error FailingCursor.injected := by
  constructor
  · obtain ⟨pages, c₀, pages', c', hdrain, -, hdrain', hwithin, -⟩ :=
      drain_failing (.ofNames ["a", "b", "c"]) (.first _ .forward fun _ => true) 3 false
        .forward 2 {} 4
    obtain ⟨rfl, hstatus, hstate⟩ := hwithin (by decide)
    refine ⟨_, c₀, c', hdrain, hdrain', hstatus, ?_⟩
    have hlength : (StoreCursor.stretch .forward {}
        (.first (.ofNames ["a", "b", "c"]) .forward fun _ => true)).length = 3 := by decide
    rw [hstate, hlength]
  · obtain ⟨-, -, pages', c', -, -, hdrain', -, hfails, -⟩ :=
      drain_failing (.ofNames ["a", "b", "c"]) (.first _ .forward fun _ => true) 1 false
        .forward 2 {} 4
    obtain ⟨hpages, hstatus⟩ := hfails (by decide)
    refine ⟨pages', c', hdrain', ?_, hstatus⟩
    rw [hpages]
    decide

end PagedScan
