import PagedScan.Proofs.WholeRange

/-!
# A range can be read in tiles

To read a long range in parts, a caller cuts it at some keys and asks for one
part per query: each stops at the key that the next one starts from. A stop is
exclusive and a start is not, so at every cut the two sides meet without a gap
and without an overlap, whichever way the walk goes and whether or not the store
has the key of the cut.

`Store.range` is what lies between two bounds, and `range_eq_append` is one cut
through it. Cutting further is an induction along the cuts, each one made in
what the cuts before it have left. For that every cut has to lie between the
bounds; equal cuts have an empty tile between them and do no harm.

An empty cut would: an empty start is no start and an empty stop no stop, so the
tiles on both sides of it would run past it.
-/

namespace PagedScan

namespace Direction

/-- Whether a key lies at `start` or behind it and before `stop`, as a walk meets
them; an empty bound is none. -/
def within (d : Direction) (start stop key : Bytes) : Bool :=
  (start.isEmpty || !d.before key start) && (stop.isEmpty || d.before key stop)

variable {d : Direction} {start stop cut key : Bytes}

theorem within_iff : d.within start stop key = true ↔
    (start ≠ [] → d.before key start = false) ∧ (stop ≠ [] → d.before key stop = true) := by
  simp only [within, Bool.and_eq_true, Bool.or_eq_true, Bool.not_eq_true', List.isEmpty_iff,
    ne_eq, Decidable.imp_iff_not_or, Decidable.not_not]

/-! The two sides of a cut. What lies before the cut lies before the stop, and what
does not lies behind the start. -/

theorem within_before_cut_iff (hcut : cut ≠ []) (hstop : stop ≠ [] → d.before stop cut = false) :
    d.within start cut key = true ↔
      d.within start stop key = true ∧ d.before key cut = true := by
  simp only [within_iff]
  constructor
  · intro ⟨hlow, hhigh⟩
    exact ⟨⟨hlow, fun hne => before_of_not_before (hhigh hcut) (hstop hne)⟩, hhigh hcut⟩
  · intro ⟨⟨hlow, _⟩, hhigh⟩
    exact ⟨hlow, fun _ => hhigh⟩

theorem within_behind_cut_iff (hcut : cut ≠ []) (hstart : start ≠ [] → d.before cut start = false) :
    d.within cut stop key = true ↔
      d.within start stop key = true ∧ d.before key cut = false := by
  simp only [within_iff]
  constructor
  · intro ⟨hlow, hhigh⟩
    exact ⟨⟨fun hne => not_before_trans (hstart hne) (hlow hcut), hhigh⟩, hlow hcut⟩
  · intro ⟨⟨_, hhigh⟩, hlow⟩
    exact ⟨fun _ => hlow, hhigh⟩

end Direction

namespace Store

variable {s : Store} {d : Direction}

/-- The entries that a walk meets between two bounds. -/
def range (s : Store) (d : Direction) (start stop : Bytes) : List Entry :=
  (s.walk d).filter fun e => d.within start stop e.key

theorem range_eq_append {start stop cut : Bytes} (hcut : cut ≠ [])
    (hstart : start ≠ [] → d.before cut start = false)
    (hstop : stop ≠ [] → d.before stop cut = false) :
    s.range d start stop = s.range d start cut ++ s.range d cut stop := by
  have hfirst : ∀ {key}, d.within start cut key = true ↔ _ :=
    Direction.within_before_cut_iff hcut hstop
  have hsplit : (s.walk d).filter (fun e => d.within start stop e.key) =
      (s.walk d).filter (fun e => d.within start cut e.key) ++ _ :=
    Query.filter_eq_append (fun x hx => (hfirst.mp hx).1)
      (fun x y hxy hy hx => hfirst.mpr ⟨hx, Direction.before_trans hxy (hfirst.mp hy).2⟩)
      (s.walk_pairwise d)
  rw [range, hsplit, range, range]
  congr 1
  refine List.filter_congr fun e _ => ?_
  rw [Bool.eq_iff_iff, Direction.within_behind_cut_iff hcut hstart, Bool.and_eq_true,
    Bool.not_eq_true', ← Bool.not_eq_true, hfirst, ← Bool.not_eq_true]
  exact and_congr_right fun hall => not_congr (and_iff_right hall)

end Store

namespace Query

variable {s : Store} {q : Query}

/-- The query asks for all that lies between its bounds. -/
structure IsRange (q : Query) : Prop where
  stem : q.stem.getD [] = []
  skipStart : q.skipStart = false
  limit : q.limit.toInt ≤ 0

instance (q : Query) : Decidable q.IsRange :=
  decidable_of_iff (q.stem.getD [] = [] ∧ q.skipStart = false ∧ q.limit.toInt ≤ 0)
    ⟨fun ⟨hstem, hskip, hlimit⟩ => ⟨hstem, hskip, hlimit⟩,
      fun ⟨hstem, hskip, hlimit⟩ => ⟨hstem, hskip, hlimit⟩⟩

/-- The walk of the query does not meet `b` before `a`. -/
def InOrder (q : Query) (a b : Bytes) : Prop :=
  if q.reverse then b ≤ a else a ≤ b

instance (q : Query) (a b : Bytes) : Decidable (q.InOrder a b) :=
  inferInstanceAs (Decidable (if q.reverse then b ≤ a else a ≤ b))

theorem inOrder_iff {a b : Bytes} : q.InOrder a b ↔ q.direction.before b a = false := by
  rw [InOrder, direction, Direction.ofReverse]
  cases q.reverse with
  | false => simp [Direction.before]
  | true => simp [Direction.before]

theorem IsRange.selection_eq (h : q.IsRange) (s : Store) :
    q.selection s = s.range q.direction q.startKey (q.stop.getD []) := by
  rw [selection_eq_filter h.limit (startsInStem_of_no_stem h.stem), Store.range]
  refine List.filter_congr fun e _ => ?_
  rw [asksFor, keeps_of_no_stem h.stem, leavesOut_of_no_skip h.skipStart, Bool.not_false,
    Bool.and_true, Direction.within]
  congr 1
  by_cases hstart : q.startKey = []
  · simp [reaches_of_no_start hstart, hstart]
  · have hopen : q.startKey.isEmpty = false := by simpa using hstart
    rw [reaches_eq hstart, hopen, Bool.false_or]

/-! ## Along the cuts -/

theorem flatMap_selection_tiles {d : Direction} {cuts : List Bytes} {tiles : List Query}
    {start stop : Option Bytes} (htiles : ∀ t ∈ tiles, t.IsRange ∧ t.direction = d)
    (hstarts : tiles.map Query.start = start :: cuts.map some)
    (hstops : tiles.map Query.stop = cuts.map some ++ [stop])
    (hcuts : ∀ m ∈ cuts, m ≠ [])
    (hsorted : cuts.Pairwise fun m m' => d.before m' m = false)
    (hstart : start.getD [] ≠ [] → ∀ m ∈ cuts, d.before m (start.getD []) = false)
    (hstop : stop.getD [] ≠ [] → ∀ m ∈ cuts, d.before (stop.getD []) m = false) :
    tiles.flatMap (fun t => t.selection s) = s.range d (start.getD []) (stop.getD []) := by
  induction cuts generalizing start tiles with
  | nil =>
      obtain ⟨t, rest, rfl, rfl, hrest⟩ := List.map_eq_cons_iff.mp hstarts
      rw [List.map_nil, List.map_eq_nil_iff] at hrest
      subst hrest
      obtain ⟨hrange, rfl⟩ := htiles t (List.mem_singleton_self t)
      have hend : t.stop = stop := by simpa using hstops
      rw [List.flatMap_singleton, hrange.selection_eq, hend]
      rfl
  | cons m cuts ih =>
      obtain ⟨t, rest, rfl, rfl, hrest⟩ := List.map_eq_cons_iff.mp hstarts
      obtain ⟨⟨hrange, rfl⟩, htiles⟩ := List.forall_mem_cons.mp htiles
      obtain ⟨hm, hcuts⟩ := List.forall_mem_cons.mp hcuts
      obtain ⟨hbehind, hsorted⟩ := List.pairwise_cons.mp hsorted
      rw [List.map_cons, List.map_cons, List.cons_append, List.cons.injEq] at hstops
      obtain ⟨hend, hstops⟩ := hstops
      have hrest := ih htiles hrest hstops hcuts hsorted (fun _ => hbehind)
        fun hne m' hm' => hstop hne m' (List.mem_cons_of_mem m hm')
      have hcut := Store.range_eq_append (s := s) hm
        (fun hne => hstart hne m List.mem_cons_self)
        (fun hne => hstop hne m List.mem_cons_self)
      rw [List.flatMap_cons, hrange.selection_eq, hend, hrest, hcut]
      rfl

/-! ## From the first and the last cut to all of them -/

theorem inOrder_of_first {d : Direction} {a : Bytes} {cuts : List Bytes}
    (hsorted : cuts.Pairwise fun m m' => d.before m' m = false)
    (h : ∀ m, cuts.head? = some m → d.before m a = false) :
    ∀ m ∈ cuts, d.before m a = false := by
  cases cuts with
  | nil => simp
  | cons m cuts =>
      have hm := h m rfl
      exact List.forall_mem_cons.mpr ⟨hm, fun m' hm' =>
        Direction.not_before_trans hm ((List.pairwise_cons.mp hsorted).1 m' hm')⟩

theorem inOrder_of_last {d : Direction} {b : Bytes} {cuts : List Bytes}
    (hsorted : cuts.Pairwise fun m m' => d.before m' m = false)
    (h : ∀ m, cuts.getLast? = some m → d.before b m = false) :
    ∀ m ∈ cuts, d.before b m = false := by
  intro m hm
  cases hlast : cuts.getLast? with
  | none => rw [List.getLast?_eq_none_iff.mp hlast] at hm; cases hm
  | some last =>
      obtain ⟨init, rfl⟩ := List.getLast?_eq_some_iff.mp hlast
      have hb := h last hlast
      rcases List.mem_append.mp hm with hm | hm
      · have hbehind := (List.pairwise_append.mp hsorted).2.2 m hm last (List.mem_singleton_self _)
        exact Direction.not_before_trans hbehind hb
      · rwa [List.mem_singleton.mp hm]

end Query

/-- A range is cut at keys in the order of its walk, none of them empty and all
of them between its bounds, and the tiles are searched for together. Their pages,
one behind the other, are the page that the range itself is answered with. -/
theorem search_tiles (s : Store) (c : StoreCursor s) (logging : Bool) (settings : Settings)
    {q : Query} {tiles : List Query} {cuts : List Bytes} (hq : q.IsRange)
    (htiles : ∀ t ∈ tiles, t.IsRange ∧ t.reverse = q.reverse)
    (hstarts : tiles.map Query.start = q.start :: cuts.map some)
    (hstops : tiles.map Query.stop = cuts.map some ++ [q.stop])
    (hcuts : ∀ m ∈ cuts, m ≠ []) (hsorted : cuts.Pairwise q.InOrder)
    (hstart : ∀ a, q.start = some a → a ≠ [] → ∀ m, cuts.head? = some m → q.InOrder a m)
    (hstop : ∀ b, q.stop = some b → b ≠ [] → ∀ m, cuts.getLast? = some m → q.InOrder m b) :
    ∃ r c', (search logging settings tiles c).Yields c' r ∧ r.failure = none ∧
      s.Answers q (r.pages.flatMap Page.toList) := by
  obtain ⟨r, c', hsearch, hfailure, hpages⟩ := exists_searchFrom logging settings tiles 0 c
  refine ⟨r, c', hsearch, hfailure, ?_⟩
  simp only [Query.inOrder_iff] at hstart hstop
  have hsorted := hsorted.imp fun h => Query.inOrder_iff.mp h
  have hwhole : tiles.flatMap (fun t => t.selection s) = q.selection s := by
    rw [hq.selection_eq]
    refine Query.flatMap_selection_tiles (fun t ht => ?_) hstarts hstops hcuts hsorted
      (fun hne => Query.inOrder_of_first hsorted ?_) (fun hne => Query.inOrder_of_last hsorted ?_)
    · obtain ⟨hrange, hreverse⟩ := htiles t ht
      exact ⟨hrange, by rw [Query.direction, hreverse, Query.direction]⟩
    · cases ha : q.start with
      | none => rw [ha] at hne; exact absurd rfl hne
      | some a => rw [ha] at hne; exact hstart a ha hne
    · cases hb : q.stop with
      | none => rw [hb] at hne; exact absurd rfl hne
      | some b => rw [hb] at hne; exact hstop b hb hne
  rw [List.flatMap_def, hpages, ← List.flatMap_def, hwhole]
  exact s.answers_selection q

/-- Down from `d` to behind `a`, cut at a key that the store does not have, twice,
and at one that it has. -/
theorem search_tiles_downward :
    ∃ r c', (search false .standard
        [⟨some [100], none, some [98, 0], 0, true, false⟩,
          ⟨some [98, 0], some [], some [98, 0], -1, true, false⟩,
          ⟨some [98, 0], none, some [98], 0, true, false⟩,
          ⟨some [98], none, some [97], 0, true, false⟩]
        (Store.ofNames ["a", "b", "c", "d", "e"]).cursor).Yields c' r ∧ r.failure = none ∧
      (Store.ofNames ["a", "b", "c", "d", "e"]).Answers
        ⟨some [100], none, some [97], 0, true, false⟩ (r.pages.flatMap Page.toList) := by
  have hcuts : ∀ m ∈ ([[98, 0], [98, 0], [98]] : List Bytes), m ≠ [] := by decide
  refine search_tiles _ _ _ _ (by decide) (by decide) ?_ ?_ hcuts (by decide) ?_ ?_
  · rfl
  · rfl
  · rintro _ ⟨⟩ _ _ ⟨⟩
    decide
  · rintro _ ⟨⟩ _ _ ⟨⟩
    decide

end PagedScan
