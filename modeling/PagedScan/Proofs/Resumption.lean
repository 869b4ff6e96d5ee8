import Mathlib.Algebra.Order.Floor.Div
import PagedScan.Fetch.Drain
import PagedScan.Proofs.StoreWalk

/-!
# Fetches resume where the last one stopped

A caller that wants more than a page calls again on the same cursor. Whether
that loses an entry or sees one twice is decided at the boundary of two pages,
in the one entry the cursor is left on. The account of a single fetch already
says that what it takes and what the cursor has ahead afterwards are, one
behind the other, what the cursor had ahead before. Here that account is
carried along a sequence of fetches, each with a limit and a page size of its
own: the pages, end to end, are a first part of the `stretch` that the filter
admits, as long as the limits allow together.

With one positive limit throughout, the first page that comes out empty is the
one after the stretch is used up, so the number of calls until then can be said
in advance; `drain`, which stops at that page, makes exactly so many.
-/

namespace PagedScan

variable {σ : Type} [Cursor σ]

/-- One fetch after the other on the same cursor, each with a limit and a page
size of its own. -/
def fetchEach (logging : Bool) (d : Direction) (f : Filter) :
    List (Int64 × UInt64) → σ → Outcome Misuse σ (List Page)
  | [], c => .ok c []
  | (limit, pageSize) :: calls, c =>
      (fetch logging d limit f pageSize c).andThen fun c p =>
        (fetchEach logging d f calls c).andThen fun c pages => .ok c (p :: pages)

/-- The first entries of a list, as many as the limits say together, if each of
them says any. -/
def cutAll (limits : List Int64) (entries : List Entry) : List Entry :=
  if limits.all fun limit => 0 < limit.toInt then
    entries.take (limits.map fun limit => limit.toInt.toNat).sum
  else entries

namespace StoreCursor

variable {s : Store}

/-- The entries ahead of a cursor up to the first one that the filter does not
admit. -/
def stretch (d : Direction) (f : Filter) (c : StoreCursor s) : List Entry :=
  (c.ahead d).takeWhile fun e => f.admits d e.key

end StoreCursor

/-! ## Limits, one after the other -/

theorem cut_of_pos {limit : Int64} (h : 0 < limit.toInt) (entries : List Entry) :
    cut limit entries = entries.take limit.toInt.toNat := if_pos h

theorem cut_of_not_pos {limit : Int64} (h : ¬ 0 < limit.toInt) (entries : List Entry) :
    cut limit entries = entries := if_neg h

theorem cut_eq_nil_iff (limit : Int64) {entries : List Entry} :
    cut limit entries = [] ↔ entries = [] := by
  rw [cut]
  split
  · next hpos =>
      have hne : limit.toInt.toNat ≠ 0 := by omega
      rw [List.take_eq_nil_iff]
      exact or_iff_right hne
  · exact Iff.rfl

theorem cutAll_nil (entries : List Entry) : cutAll [] entries = [] := by
  rw [cutAll, if_pos List.all_nil]
  rfl

/-- What a first limit and the others let through, when the others apply to
what is left. -/
theorem cutAll_cons {limit : Int64} (limits : List Int64) {entries rest : List Entry}
    (h : entries = cut limit entries ++ rest) :
    cutAll (limit :: limits) entries = cut limit entries ++ cutAll limits rest := by
  rw [cutAll, List.all_cons, cutAll]
  by_cases hpos : 0 < limit.toInt
  · rw [cut_of_pos hpos] at h ⊢
    have hrest : rest = entries.drop limit.toInt.toNat := by
      have htake := (List.take_append_drop limit.toInt.toNat entries).trans h
      exact (List.append_cancel_left htake).symm
    rw [decide_eq_true hpos, Bool.true_and]
    split
    · rw [hrest, List.map_cons, List.sum_cons, List.take_add]
    · exact h
  · -- All is let through already, and nothing is left for the others.
    rw [cut_of_not_pos hpos] at h ⊢
    have hrest : rest = [] := List.self_eq_append_right.mp h
    rw [decide_eq_false hpos, Bool.false_and, if_neg Bool.false_ne_true, hrest, List.take_nil,
      ite_self, List.append_nil]

/-- With one entry or more to go, one fetch of up to `m` leaves one fewer to be
made. -/
theorem ceilDiv_eq_succ {n m : Nat} (hn : 0 < n) (hm : 0 < m) :
    n ⌈/⌉ m = (n - m) ⌈/⌉ m + 1 := by
  rw [Nat.ceilDiv_eq_add_pred_div, Nat.ceilDiv_eq_add_pred_div,
    show n + m - 1 = n - 1 + m by omega, Nat.add_div_right _ hm]
  rcases Nat.lt_or_ge n m with hlt | hge
  · rw [Nat.div_eq_of_lt (by omega), Nat.div_eq_of_lt (by omega)]
  · rw [show n - m + m - 1 = n - 1 by omega]

/-! ## A sequence of fetches -/

namespace StoreCursor

variable {s : Store} {d : Direction} {f : Filter}

theorem admits_of_mem_stretch {c : StoreCursor s} {e : Entry} (h : e ∈ c.stretch d f) :
    f.admits d e.key = true :=
  List.all_eq_true.mp List.all_takeWhile e h

theorem stretch_of_passed {front : List Entry} {c c' : StoreCursor s}
    (hadmits : ∀ e ∈ front, f.admits d e.key = true) (h : c.ahead d = front ++ c'.ahead d) :
    c.stretch d f = front ++ c'.stretch d f := by
  rw [stretch, h]
  exact List.takeWhile_append_of_pos hadmits

theorem stretch_eq_append {limit : Int64} {c c' : StoreCursor s}
    (h : c.ahead d = taken d limit f (c.ahead d) ++ c'.ahead d) :
    c.stretch d f = cut limit (c.stretch d f) ++ c'.stretch d f :=
  stretch_of_passed (fun _ => admits_of_mem_taken) h

theorem length_stretch {limit : Int64} (hlimit : 0 < limit.toInt) {c c' : StoreCursor s}
    (h : c.ahead d = taken d limit f (c.ahead d) ++ c'.ahead d) :
    (c'.stretch d f).length = (c.stretch d f).length - limit.toInt.toNat := by
  have hsplit := congrArg List.length (stretch_eq_append h)
  rw [cut_of_pos hlimit, List.length_append, List.length_take] at hsplit
  omega

/-- The account of a sequence of fetches: the entries on their pages and those
ahead of the cursor afterwards are what it had ahead before. -/
theorem exists_fetchEach (logging : Bool) (calls : List (Int64 × UInt64))
    (c : StoreCursor s) :
    ∃ pages c', (fetchEach logging d f calls c).Yields c' pages ∧
      pages.length = calls.length ∧
      pages.flatMap Page.toList = cutAll (calls.map Prod.fst) (c.stretch d f) ∧
      c.ahead d = cutAll (calls.map Prod.fst) (c.stretch d f) ++ c'.ahead d := by
  induction calls generalizing c with
  | nil =>
      refine ⟨[], c, .ok, rfl, ?_, ?_⟩
      · exact (cutAll_nil _).symm
      · rw [List.map_nil, cutAll_nil, List.nil_append]
  | cons call calls ih =>
      obtain ⟨limit, pageSize⟩ := call
      obtain ⟨c₁, hahead, hfetch⟩ := exists_fetch logging limit f pageSize c (d := d)
      obtain ⟨pages, c₂, heach, hlength, hpages, hahead₁⟩ := ih c₁
      have hcut := cutAll_cons (calls.map Prod.fst) (stretch_eq_append hahead)
      refine ⟨_ :: pages, c₂, hfetch.andThen (heach.andThen .ok), ?_, ?_, ?_⟩
      · rw [List.length_cons, List.length_cons, hlength]
      · rw [List.map_cons, hcut, List.flatMap_cons, toList_pageOf, hpages]
        rfl
      · rw [List.map_cons, hcut, List.append_assoc, ← hahead₁]
        exact hahead

/-! ## Until a page is empty -/

theorem exists_fetchEach_until_empty (logging : Bool) {limit : Int64}
    (hlimit : 0 < limit.toInt) (sizes : List UInt64) (c : StoreCursor s)
    (hsizes : sizes.length = (c.stretch d f).length ⌈/⌉ limit.toInt.toNat + 1) :
    ∃ full last c', (fetchEach logging d f (sizes.map fun size => (limit, size)) c).Yields
        c' (full ++ [last]) ∧
      full.length + 1 = sizes.length ∧
      (∀ p ∈ full, p.toList ≠ []) ∧ last.toList = [] ∧
      full.flatMap Page.toList = c.stretch d f := by
  have hm : 0 < limit.toInt.toNat := by omega
  induction sizes generalizing c with
  | nil => exact absurd hsizes.symm (Nat.succ_ne_zero _)
  | cons size sizes ih =>
      obtain ⟨c₁, hahead, hfetch⟩ := exists_fetch logging limit f size c (d := d)
      have htaken : taken d limit f (c.ahead d) =
          (c.stretch d f).take limit.toInt.toNat := cut_of_pos hlimit _
      have hsplit := stretch_eq_append hahead
      rw [cut_of_pos hlimit] at hsplit
      rw [List.length_cons] at hsizes
      by_cases hnil : c.stretch d f = []
      · -- Nothing is left, so this call is the last one.
        have hzero : sizes = [] := by
          rw [hnil, List.length_nil, zero_ceilDiv] at hsizes
          exact List.eq_nil_of_length_eq_zero (Nat.succ.inj hsizes)
        subst hzero
        refine ⟨[], _, c₁, hfetch.andThen .ok, rfl, ?_, ?_, hnil.symm⟩
        · intro p hp
          cases hp
        · rw [toList_pageOf, htaken, hnil, List.take_nil]
      · -- The page takes something, and the calls that remain are enough for the rest.
        have hpos : 0 < (c.stretch d f).length := List.length_pos_iff.mpr hnil
        have hsizes₁ : sizes.length =
            (c₁.stretch d f).length ⌈/⌉ limit.toInt.toNat + 1 := by
          rw [ceilDiv_eq_succ hpos hm] at hsizes
          rw [length_stretch hlimit hahead]
          exact Nat.succ.inj hsizes
        obtain ⟨full, last, c₂, heach, hcount, hfull, hlast, hstretch⟩ := ih c₁ hsizes₁
        refine ⟨_ :: full, last, c₂, hfetch.andThen (heach.andThen .ok), ?_, ?_, hlast, ?_⟩
        · rw [List.length_cons, List.length_cons, hcount]
        · refine List.forall_mem_cons.mpr ⟨fun htake => ?_, hfull⟩
          rw [toList_pageOf, htaken] at htake
          have := congrArg List.length htake
          rw [List.length_take, List.length_nil] at this
          omega
        · rw [List.flatMap_cons, toList_pageOf, hstretch, htaken]
          exact hsplit.symm

end StoreCursor

/-! ## Draining -/

variable {logging : Bool} {d : Direction} {limit : Int64} {f : Filter}
  {pageSize : UInt64} {c c₁ c₂ : σ}

theorem drain_of_empty {p : Page} (h : (fetch logging d limit f pageSize c).Yields c₁ p)
    (hp : p.toList = []) : (drain logging d limit f pageSize c).Yields c₁ [p] := by
  obtain ⟨hanswer, hstate⟩ := h
  rw [drain]
  split
  · next m c' events hfetch => rw [hfetch] at hanswer; cases hanswer
  · next p' c' events hfetch =>
      rw [hfetch] at hanswer hstate
      cases hanswer
      cases hstate
      rw [dif_pos ((Page.isEmpty_iff p).mpr hp)]
      exact ⟨rfl, rfl⟩

theorem drain_of_nonempty {p : Page} {pages : List Page}
    (h : (fetch logging d limit f pageSize c).Yields c₁ p) (hp : p.toList ≠ [])
    (hrest : (drain logging d limit f pageSize c₁).Yields c₂ pages) :
    (drain logging d limit f pageSize c).Yields c₂ (p :: pages) := by
  obtain ⟨hanswer, hstate⟩ := h
  rw [drain]
  split
  · next m c' events hfetch => rw [hfetch] at hanswer; cases hanswer
  · next p' c' events hfetch =>
      rw [hfetch] at hanswer hstate
      cases hanswer
      cases hstate
      rw [dif_neg fun hempty => hp ((Page.isEmpty_iff p).mp hempty)]
      have hcons : ((drain logging d limit f pageSize c').andThen
          fun c rest => .ok c (p :: rest)).Yields c₂ (p :: pages) := hrest.andThen .ok
      exact hcons.after

theorem of_fetchEach_cons {calls : List (Int64 × UInt64)} {p : Page} {pages : List Page}
    (h : (fetchEach logging d f ((limit, pageSize) :: calls) c).Yields c₂ (p :: pages)) :
    ∃ c₁, (fetch logging d limit f pageSize c).Yields c₁ p ∧
      (fetchEach logging d f calls c₁).Yields c₂ pages := by
  obtain ⟨c₁, p', hfetch, h⟩ := h.of_andThen
  obtain ⟨c', pages', hrest, h⟩ := h.of_andThen
  cases h.answer
  cases h.state
  exact ⟨c₁, hfetch, hrest⟩

/-- Draining makes the fetches up to the first one with an empty page. -/
theorem drain_of_fetchEach {full : List Page} {last : Page}
    (h : (fetchEach logging d f (List.replicate (full.length + 1) (limit, pageSize)) c).Yields
      c₁ (full ++ [last]))
    (hfull : ∀ p ∈ full, p.toList ≠ []) (hlast : last.toList = []) :
    (drain logging d limit f pageSize c).Yields c₁ (full ++ [last]) := by
  induction full generalizing c with
  | nil =>
      obtain ⟨c', hfetch, hrest⟩ := of_fetchEach_cons h
      cases hrest.state
      exact drain_of_empty hfetch hlast
  | cons p full ih =>
      obtain ⟨hp, hfull⟩ := List.forall_mem_cons.mp hfull
      obtain ⟨c', hfetch, hrest⟩ := of_fetchEach_cons h
      exact drain_of_nonempty hfetch hp (ih hrest hfull)

/-! ## The law of resumption -/

/-- Fetches in one direction with one filter, from any cursor of any store, with
any limits and page sizes: their pages concatenate to the first entries of the
stretch that the filter admits, as many as the limits allow together, and the
cursor is left on the entry behind those, if there is one. Fetching with one
positive limit, the first empty page comes when the stretch has been delivered
whole, and draining stops there. -/
theorem fetchEach_resumes (s : Store) (c : StoreCursor s) (logging : Bool)
    (d : Direction) (f : Filter) :
    (∀ calls : List (Int64 × UInt64), ∃ pages c',
      (fetchEach logging d f calls c).Yields c' pages ∧
      pages.length = calls.length ∧
      pages.flatMap Page.toList = cutAll (calls.map Prod.fst) (c.stretch d f) ∧
      c'.current =
        ((c.ahead d).drop (cutAll (calls.map Prod.fst) (c.stretch d f)).length).head?) ∧
    ∀ limit : Int64, 0 < limit.toInt →
      (∀ sizes : List UInt64,
        sizes.length = (c.stretch d f).length ⌈/⌉ limit.toInt.toNat + 1 →
        ∃ full last c',
          (fetchEach logging d f (sizes.map fun size => (limit, size)) c).Yields c'
            (full ++ [last]) ∧
          (∀ p ∈ full, p.toList ≠ []) ∧ last.toList = [] ∧
          full.flatMap Page.toList = c.stretch d f) ∧
      ∀ pageSize : UInt64, ∃ pages c',
        (drain logging d limit f pageSize c).Yields c' pages ∧
        pages.length = (c.stretch d f).length ⌈/⌉ limit.toInt.toNat + 1 ∧
        pages.flatMap Page.toList = c.stretch d f := by
  refine ⟨fun calls => ?_, fun limit hlimit => ⟨fun sizes hsizes => ?_, fun pageSize => ?_⟩⟩
  · obtain ⟨pages, c', heach, hlength, hpages, hahead⟩ :=
      StoreCursor.exists_fetchEach logging calls c (d := d) (f := f)
    refine ⟨pages, c', heach, hlength, hpages, ?_⟩
    rw [StoreCursor.current_eq_head? d]
    conv => rhs; rw [hahead, List.drop_left]
  · obtain ⟨full, last, c', heach, -, hpages⟩ :=
      StoreCursor.exists_fetchEach_until_empty logging hlimit sizes c hsizes
    exact ⟨full, last, c', heach, hpages⟩
  · obtain ⟨full, last, c', heach, hcount, hfull, hlast, hpages⟩ :=
      StoreCursor.exists_fetchEach_until_empty logging hlimit
        (List.replicate ((c.stretch d f).length ⌈/⌉ limit.toInt.toNat + 1) pageSize) c
        List.length_replicate
    rw [List.length_replicate] at hcount
    rw [List.map_replicate, ← hcount] at heach
    refine ⟨full ++ [last], c', drain_of_fetchEach heach hfull hlast, ?_, ?_⟩
    · rw [List.length_append, List.length_singleton, hcount]
    · rw [List.flatMap_append, List.flatMap_singleton, hlast, List.append_nil, hpages]

/-- Three entries, two to a page: a page of two, a page of one and an empty one,
whatever the page sizes are. -/
theorem fetchEach_resumes_three_entries :
    ∃ full last c',
      (fetchEach false .forward {} [(2, 4), (2, 0), (2, 1)]
        (StoreCursor.first (.ofNames ["a", "b", "c"]) .forward fun _ => true)).Yields c'
        (full ++ [last]) ∧
      (∀ p ∈ full, p.toList ≠ []) ∧ last.toList = [] ∧
      full.flatMap Page.toList = (Store.ofNames ["a", "b", "c"]).entries := by
  have hlimit : 0 < (2 : Int64).toInt := by decide
  obtain ⟨hpages, -⟩ := (fetchEach_resumes (.ofNames ["a", "b", "c"])
    (.first (.ofNames ["a", "b", "c"]) .forward fun _ => true) false .forward {}).2 2 hlimit
  exact hpages [4, 0, 1] (by decide)

end PagedScan
