import PagedScan.Proofs.SearchPages

/-!
# A scan misses nothing that its query asks for

A scan ends at the first key that its filter does not admit, and never looks at
those behind it. That is as good as asking the filter about every key of the
store if no key is admitted behind one that is not. For the stop this is plain,
since the walk has gone past it for good. For the stem it rests on the order of
keys: those that begin with one stem lie next to each other, with nothing
between them, so a walk that has left them does not come back.

It may, however, not have come to them yet. A query that starts before the first
key with its stem, and meets another key there, ends at once. So the start has
to lie where the walk is not yet to enter the stem: among the keys that begin
with it, or, going up, anywhere from the stem on. Then what a query without a
limit gets is `asksFor`, asked about every entry of the store.

Two queries over the same bounds, one going up and one going down, then ask the
same of every key, and their pages are each other's reversal.
-/

namespace PagedScan

/-! ## Keys with one stem lie next to each other -/

theorem prefix_of_between {stem key far : Bytes} (hlow : stem ≤ key) (hhigh : key ≤ far)
    (hfar : stem <+: far) : stem <+: key := by
  induction stem generalizing key far with
  | nil => exact List.nil_prefix
  | cons b stem ih =>
      obtain ⟨rest, rfl⟩ := hfar
      match key with
      | [] => cases List.le_nil.mp hlow
      | b' :: key =>
          rw [List.cons_append, List.cons_le_cons_iff] at hhigh
          rw [List.cons_le_cons_iff] at hlow
          rcases hlow with hlt | ⟨rfl, hlow⟩
          · rcases hhigh with hgt | ⟨rfl, -⟩
            · exact absurd (UInt8.lt_trans hlt hgt) (UInt8.lt_irrefl b)
            · exact absurd hlt (UInt8.lt_irrefl _)
          · rcases hhigh with hgt | ⟨-, hhigh⟩
            · exact absurd hgt (UInt8.lt_irrefl b)
            · exact List.cons_prefix_cons.mpr ⟨rfl, ih hlow hhigh (List.prefix_append _ _)⟩

/-- Stopping at the first element with no `p` loses nothing if none behind it has `p`. -/
theorem takeWhile_eq_filter {α : Type} {p : α → Bool} {l : List α}
    (h : l.Pairwise fun x y => p y = true → p x = true) : l.takeWhile p = l.filter p := by
  induction l with
  | nil => rfl
  | cons x l ih =>
      obtain ⟨hx, hl⟩ := List.pairwise_cons.mp h
      by_cases hp : p x = true
      · rw [List.takeWhile_cons_of_pos hp, List.filter_cons_of_pos hp, ih hl]
      · rw [List.takeWhile_cons_of_neg hp, List.filter_cons_of_neg hp]
        refine (List.filter_eq_nil_iff.mpr fun y hy hpy => hp ?_).symm
        exact hx y hy hpy

namespace Query

/-- Whether the query asks for this key, wherever in the walk it lies. -/
def asksFor (q : Query) (key : Bytes) : Bool :=
  q.reaches key && !q.leavesOut key && q.keeps key

/-- The start lies among the keys with the stem or, going up, behind the place
where they begin. -/
def StartsInStem (q : Query) : Prop :=
  q.stem.getD [] <+: q.startKey ∨ q.reverse = false ∧ q.stem.getD [] ≤ q.startKey

variable {q : Query}

theorem startsInStem_of_no_stem (h : q.stem.getD [] = []) : q.StartsInStem := by
  rw [StartsInStem, h]
  exact .inl List.nil_prefix

/-! ## Once left, left for good -/

theorem stem_of_lt {stem start x y : Bytes} (hstart : stem ≤ start)
    (hx : start = [] ∨ start ≤ x) (hxy : x < y) (hy : stem = [] ∨ stem <+: y) :
    stem = [] ∨ stem <+: x := by
  rcases hy with hnil | hy
  · exact .inl hnil
  · have hlow : stem ≤ x := by
      rcases hx with rfl | hx
      · rw [List.le_nil.mp hstart]
        exact List.nil_le x
      · exact List.le_trans hstart hx
    exact .inr (prefix_of_between hlow (List.le_of_lt hxy) hy)

theorem stem_of_gt {stem start x y : Bytes} (hstart : stem <+: start)
    (hx : start = [] ∨ x ≤ start) (hxy : y < x) (hy : stem = [] ∨ stem <+: y) :
    stem = [] ∨ stem <+: x := by
  rcases hy with hnil | hy
  · exact .inl hnil
  · rcases hx with rfl | hx
    · exact .inl (List.prefix_nil.mp hstart)
    · have hlow : stem ≤ x := List.le_trans hy.le (List.le_of_lt hxy)
      exact .inr (prefix_of_between hlow hx hstart)

/-- A walk that has come to a key which the query keeps to has met none before
it, from the start on, that the query does not keep to. -/
theorem keeps_of_before (hstart : q.StartsInStem) {x y : Bytes}
    (hxy : q.direction.before x y = true) (hx : q.reaches x = true)
    (hy : q.keeps y = true) : q.keeps x = true := by
  rw [keeps, decide_eq_true_eq] at hy ⊢
  rw [reaches, decide_eq_true_eq] at hx
  obtain ⟨hstop, hstem⟩ := hy
  rw [direction, Direction.ofReverse] at hxy
  cases hreverse : q.reverse with
  | false =>
      simp only [hreverse, Bool.false_eq_true, if_false, Direction.before,
        decide_eq_true_eq] at hxy hstop hx ⊢
      have hlow : q.stem.getD [] ≤ q.startKey := by
        rcases hstart with hprefix | ⟨-, hle⟩
        · exact hprefix.le
        · exact hle
      exact ⟨hstop.imp id fun h => List.lt_trans hxy h,
        stem_of_lt hlow hx hxy hstem⟩
  | true =>
      simp only [hreverse, if_true, Direction.before, decide_eq_true_eq] at hxy hstop hx ⊢
      have hprefix : q.stem.getD [] <+: q.startKey := by
        rcases hstart with hprefix | ⟨hforward, -⟩
        · exact hprefix
        · rw [hreverse] at hforward
          cases hforward
      exact ⟨hstop.imp id fun h => List.lt_trans h hxy,
        stem_of_gt hprefix hx hxy hstem⟩

theorem selection_eq_cut_filter (hstart : q.StartsInStem) (s : Store) :
    q.selection s = cut q.limit ((s.walk q.direction).filter fun e => q.asksFor e.key) := by
  have horder : (q.candidates s).Pairwise fun a b => q.keeps b.key = true →
      q.keeps a.key = true := by
    have hwalk := s.walk_pairwise q.direction
    rw [candidates, ← walk_direction]
    refine (hwalk.filter _).imp_of_mem fun {a b} ha _ hab hb => ?_
    have hreaches := (List.mem_filter.mp ha).2
    rw [Bool.and_eq_true] at hreaches
    exact keeps_of_before hstart hab hreaches.1 hb
  rw [selection, takeWhile_eq_filter horder, candidates, ← walk_direction, List.filter_filter]
  congr 1
  refine List.filter_congr fun e _ => ?_
  rw [asksFor, Bool.and_comm]

theorem selection_eq_filter (hlimit : q.limit.toInt ≤ 0) (hstart : q.StartsInStem) (s : Store) :
    q.selection s = (s.walk q.direction).filter fun e => q.asksFor e.key := by
  rw [selection_eq_cut_filter hstart, cut, if_neg (Int.not_lt.mpr hlimit)]

theorem keeps_of_no_stem (hstem : q.stem.getD [] = []) (key : Bytes) :
    q.keeps key = ((q.stop.getD []).isEmpty || q.direction.before key (q.stop.getD [])) := by
  rw [keeps_eq, filter, Filter.ofOptions, Filter.admits, Filter.inRange, Filter.hasStem, hstem,
    List.isEmpty_nil, Bool.true_or, Bool.and_true]

/-- Without its start, a query begins with what lies strictly behind it. -/
theorem begins_of_skipStart (q : Query) (hskip : q.skipStart = true)
    (hstart : q.startKey ≠ []) (key : Bytes) :
    (q.reaches key && !q.leavesOut key) = q.direction.before q.startKey key := by
  rw [reaches_eq hstart]
  cases hafter : q.direction.before q.startKey key with
  | true =>
      have hout : q.leavesOut key = false := by
        refine Bool.eq_false_iff.mpr fun hout => ?_
        rw [(leavesOut_iff.mp hout).2.2, Direction.before_irrefl] at hafter
        cases hafter
      rw [Direction.before_asymm hafter, hout]
      rfl
  | false =>
      cases hbefore : q.direction.before key q.startKey with
      | true => rfl
      | false =>
          have hout : q.leavesOut key = true :=
            leavesOut_iff.mpr ⟨hskip, hstart, Direction.eq_of_not_before hbefore hafter⟩
          rw [hout]
          rfl

theorem asksFor_of_skipStart (q : Query) (hskip : q.skipStart = true)
    (hstart : q.startKey ≠ []) (key : Bytes) :
    q.asksFor key = (q.direction.before q.startKey key && q.keeps key) := by
  rw [asksFor, q.begins_of_skipStart hskip hstart]

end Query

/-! ## Every page of every search -/

/-- Whatever state a cursor of the store is in and whatever other queries are run
with it, the query is answered with a page of these entries. -/
def Store.Answers (s : Store) (q : Query) (entries : List Entry) : Prop :=
  ∀ (c : StoreCursor s) (logging : Bool) (settings : Settings) (before after : List Query),
    ∃ r c' p, (search logging settings (before ++ q :: after) c).Yields c' r ∧
      r.failure = none ∧ r.pages[before.length]? = some p ∧ p.toList = entries

theorem Store.answers_selection (s : Store) (q : Query) : s.Answers q (q.selection s) := by
  intro c logging settings before after
  obtain ⟨r, c', hsearch, hfailure, hpages⟩ :=
    exists_searchFrom logging settings (before ++ q :: after) 0 c
  have hget := congrArg (·[before.length]?) hpages
  simp only [List.getElem?_map, List.getElem?_append_right (Nat.le_refl _), Nat.sub_self,
    List.getElem?_cons_zero, Option.map_some, Option.map_eq_some_iff] at hget
  obtain ⟨p, hp, hentries⟩ := hget
  exact ⟨r, c', p, hsearch, hfailure, hp, hentries⟩

/-- A query without a limit that starts among the keys with its stem, or going
up behind the place where they begin, gets every entry of the store that it asks
for, in the order of its walk. -/
theorem Store.answers_asked (s : Store) {q : Query} (hlimit : q.limit.toInt ≤ 0)
    (hstart : q.stem.getD [] <+: q.startKey ∨
      q.reverse = false ∧ q.stem.getD [] ≤ q.startKey) :
    s.Answers q ((if q.reverse then s.entries.reverse else s.entries).filter
      fun e => q.asksFor e.key) := by
  rw [← q.walk_direction, ← Query.selection_eq_filter hlimit hstart]
  exact s.answers_selection q

/-- Up from behind the first key with the stem, and down from among them. -/
theorem Store.answers_asked_both_ways :
    (Store.ofList [⟨[1], []⟩, ⟨[1, 2], []⟩, ⟨[1, 2, 0], []⟩, ⟨[1, 2, 7], []⟩,
        ⟨[1, 3], []⟩]).Answers
      ⟨some [1, 2], some [1, 2], none, -1, false, true⟩
      [⟨[1, 2, 0], []⟩, ⟨[1, 2, 7], []⟩] ∧
    (Store.ofList [⟨[1], []⟩, ⟨[1, 2], []⟩, ⟨[1, 2, 0], []⟩, ⟨[1, 2, 7], []⟩,
        ⟨[1, 3], []⟩]).Answers
      ⟨some [1, 2, 3], some [1, 2], some [1], 0, true, false⟩
      [⟨[1, 2, 0], []⟩, ⟨[1, 2], []⟩] := by
  constructor
  · exact Store.answers_asked _ (by decide) (.inr (by decide))
  · exact Store.answers_asked _ (by decide) (.inl (by decide))

/-! ## There and back -/

/-- Without its start, with a stop and no stem and no limit, a query gets what
lies strictly between the two. -/
theorem Query.selection_between (q : Query) (hskip : q.skipStart = true)
    (hstart : q.startKey ≠ []) (hstop : q.stop.getD [] ≠ []) (hstem : q.stem.getD [] = [])
    (hlimit : q.limit.toInt ≤ 0) (s : Store) :
    q.selection s = (s.walk q.direction).filter fun e =>
      q.direction.before q.startKey e.key && q.direction.before e.key (q.stop.getD []) := by
  have hopen : (q.stop.getD []).isEmpty = false := by simpa using hstop
  rw [selection_eq_filter hlimit (startsInStem_of_no_stem hstem)]
  refine List.filter_congr fun e _ => ?_
  rw [q.asksFor_of_skipStart hskip hstart, keeps_of_no_stem hstem, hopen, Bool.false_or]

/-- Two queries over the same bounds, both left out, one going up and one going
down, with no stem and no limit: their pages are each other's reversal, and hold
the entries between the bounds. -/
theorem Store.answers_mirrored (s : Store) {a b : Bytes} (ha : a ≠ []) (hb : b ≠ [])
    {up down : Int64} (hup : up.toInt ≤ 0) (hdown : down.toInt ≤ 0)
    {stem stem' : Option Bytes} (hstem : stem.getD [] = []) (hstem' : stem'.getD [] = []) :
    s.Answers ⟨some a, stem, some b, up, false, true⟩
      (s.entries.filter fun e => a < e.key ∧ e.key < b) ∧
    s.Answers ⟨some b, stem', some a, down, true, true⟩
      (s.entries.filter fun e => a < e.key ∧ e.key < b).reverse := by
  constructor
  · have hpage := Query.selection_between ⟨some a, stem, some b, up, false, true⟩
      rfl ha hb hstem hup s
    simp only [Bool.decide_and]
    exact hpage ▸ s.answers_selection _
  · have hpage := Query.selection_between ⟨some b, stem', some a, down, true, true⟩
      rfl hb ha hstem' hdown s
    -- Going down, the two bounds are asked about in the other order.
    have hswap : ∀ e : Entry, decide (a < e.key ∧ e.key < b) =
        (decide (e.key < b) && decide (a < e.key)) := by
      intro e
      rw [Bool.decide_and, Bool.and_comm]
    simp only [hswap]
    rw [← List.filter_reverse]
    exact hpage ▸ s.answers_selection _

/-- Between a bound that is a key and one that is not. -/
theorem Store.answers_mirrored_three_keys :
    (Store.ofNames ["a", "b", "c"]).Answers ⟨some [97], none, some [98, 0], 0, false, true⟩
      [⟨[98], Bytes.ofText "val_b"⟩] ∧
    (Store.ofNames ["a", "b", "c"]).Answers ⟨some [98, 0], some [], some [97], -3, true, true⟩
      [⟨[98], Bytes.ofText "val_b"⟩] :=
  Store.answers_mirrored _ (by decide) (by decide) (by decide) (by decide) rfl rfl

end PagedScan
