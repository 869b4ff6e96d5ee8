import PagedScan.Proofs.StoreWalk
import PagedScan.Search

/-!
# What a query selects

A query says where to start, which keys to keep to and how many entries to
take. `Query.selection` reads that off as a list of entries of the store, with
no cursor in sight: the entries from the start on, in order, without the start
itself if it is left out, as far as the keys keep to the stem and the stop, and
no more than the limit.

The cursor gets there in two moves. It seeks the start, and if it has come to
stand exactly on a start that is left out, it takes one step. So its way leads
over the `skipped` entry, if there is one, and then over the selection. Both
moves are part of the way that a cursor passes, and `run_of_passes` says what a
query comes to on any cursor in terms of that way alone.
-/

namespace PagedScan

namespace Query

/-- The key to start from, or the empty key for none. -/
def startKey (q : Query) : Bytes := q.start.getD []

/-- Whether the key lies at the start or behind it. -/
def reaches (q : Query) (key : Bytes) : Bool :=
  q.startKey = [] ∨ if q.reverse then key ≤ q.startKey else q.startKey ≤ key

/-- Whether the key is a start that is left out. -/
def leavesOut (q : Query) (key : Bytes) : Bool :=
  q.skipStart ∧ q.startKey ≠ [] ∧ key = q.startKey

/-- Whether the key keeps to the stop and the stem of the query. -/
def keeps (q : Query) (key : Bytes) : Bool :=
  (q.stop.getD [] = [] ∨
    if q.reverse then q.stop.getD [] < key else key < q.stop.getD []) ∧
  (q.stem.getD [] = [] ∨ q.stem.getD [] <+: key)

/-- The entries that a query may begin with, in the order of its walk. -/
def candidates (q : Query) (s : Store) : List Entry :=
  (if q.reverse then s.entries.reverse else s.entries).filter
    fun e => q.reaches e.key && !q.leavesOut e.key

/-- The entries that a query asks for. -/
def selection (q : Query) (s : Store) : List Entry :=
  cut q.limit ((q.candidates s).takeWhile fun e => q.keeps e.key)

/-- Whether the store has an entry at a start that is left out. -/
def skips (q : Query) (s : Store) : Bool :=
  q.skipStart ∧ q.startKey ≠ [] ∧ (s.find? q.startKey).isSome

/-- The entry at a start that is left out, if there is one. -/
def skipped (q : Query) (s : Store) : List Entry :=
  (s.walk q.direction).filter fun e => q.leavesOut e.key

/-! ## The query's own terms -/

theorem startKey?_eq (q : Query) :
    q.startKey? = if q.startKey = [] then none else some q.startKey := by
  rw [startKey?, startKey]
  cases q.start with
  | none => rfl
  | some key =>
      cases key with
      | nil => rfl
      | cons b bytes => rfl

theorem walk_direction (q : Query) (s : Store) :
    s.walk q.direction = if q.reverse then s.entries.reverse else s.entries := by
  rw [direction, Direction.ofReverse]
  split
  · rfl
  · rfl

theorem reaches_of_no_start {q : Query} (h : q.startKey = []) (key : Bytes) :
    q.reaches key = true := by
  rw [reaches, decide_eq_true_eq]
  exact .inl h

theorem reaches_eq {q : Query} (h : q.startKey ≠ []) (key : Bytes) :
    q.reaches key = !q.direction.before key q.startKey := by
  simp only [reaches, h, false_or, direction, Direction.ofReverse]
  cases q.reverse with
  | false => exact (decide_eq_decide.mpr List.not_lt.symm).trans (decide_not ..)
  | true => exact (decide_eq_decide.mpr List.not_lt.symm).trans (decide_not ..)

theorem leavesOut_iff {q : Query} {key : Bytes} :
    q.leavesOut key = true ↔ q.skipStart = true ∧ q.startKey ≠ [] ∧ key = q.startKey := by
  rw [leavesOut, decide_eq_true_eq]

theorem leavesOut_of_no_start {q : Query} (h : q.startKey = []) (key : Bytes) :
    q.leavesOut key = false :=
  Bool.eq_false_iff.mpr fun hout => (leavesOut_iff.mp hout).2.1 h

theorem leavesOut_of_no_skip {q : Query} (h : q.skipStart = false) (key : Bytes) :
    q.leavesOut key = false := by
  simp [leavesOut, h]

theorem keeps_eq (q : Query) (key : Bytes) :
    q.keeps key = q.filter.admits q.direction key := by
  rw [Bool.eq_iff_iff]
  simp only [keeps, filter, Filter.ofOptions, Filter.admits, Filter.inRange,
    Filter.hasStem, Bytes.startsWith, direction, Direction.ofReverse, decide_eq_true_eq,
    Bool.and_eq_true, Bool.or_eq_true, List.isEmpty_iff, List.isPrefixOf_iff_prefix]
  cases q.reverse with
  | false => simp only [Direction.before, Bool.false_eq_true, if_false, decide_eq_true_eq]
  | true => simp only [Direction.before, if_true, decide_eq_true_eq]

theorem selection_eq_taken (q : Query) (s : Store) :
    q.selection s = taken q.direction q.limit q.filter (q.candidates s) := by
  rw [selection, taken]
  simp only [keeps_eq]

theorem candidates_pairwise (q : Query) (s : Store) :
    (q.candidates s).Pairwise fun a b => q.direction.before a.key b.key = true := by
  rw [candidates, ← walk_direction]
  exact (s.walk_pairwise _).filter _

theorem selection_pairwise (q : Query) (s : Store) :
    (q.selection s).Pairwise fun a b => q.direction.before a.key b.key = true :=
  (q.candidates_pairwise s).sublist
    ((cut_isPrefix _ _).sublist.trans (List.takeWhile_sublist _))

/-! ## The skipped entry comes first -/

/-- Of the entries with one condition, those that have another one as well can
be taken out and put in front, if none of the others is met before them. -/
theorem filter_eq_append {d : Direction} {all some : Entry → Bool}
    (hall : ∀ x, some x = true → all x = true)
    (hfirst : ∀ x y : Entry, d.before x.key y.key = true → some y = true → all x = true →
      some x = true)
    {entries : List Entry}
    (h : entries.Pairwise fun a b => d.before a.key b.key = true) :
    entries.filter all = entries.filter some ++ entries.filter fun e => all e && !some e := by
  induction entries with
  | nil => rfl
  | cons x xs ih =>
      obtain ⟨hx, hxs⟩ := List.pairwise_cons.mp h
      simp only [List.filter_cons]
      cases hsome : some x with
      | true => simp [hall x hsome, ih hxs]
      | false =>
          cases hx' : all x with
          | false => simp [ih hxs]
          | true =>
              have hnone : xs.filter some = [] := by
                refine List.filter_eq_nil_iff.mpr fun y hy hyes => ?_
                rw [hfirst x y (hx y hy) hyes hx'] at hsome
                cases hsome
              simp [ih hxs, hnone]

theorem reached_eq_append (q : Query) (s : Store) :
    ((s.walk q.direction).filter fun e => q.reaches e.key) =
      q.skipped s ++ q.candidates s := by
  rw [skipped, candidates, ← walk_direction]
  refine filter_eq_append (fun x hx => ?_) (fun x y hxy hy hx => ?_) (s.walk_pairwise _)
  · obtain ⟨-, hstart, hkey⟩ := leavesOut_iff.mp hx
    rw [reaches_eq hstart, hkey, Direction.before_irrefl]
    rfl
  · obtain ⟨-, hstart, hkey⟩ := leavesOut_iff.mp hy
    rw [reaches_eq hstart, ← hkey, hxy] at hx
    cases hx

theorem skips_iff (q : Query) (s : Store) :
    q.skips s = true ↔ ∃ e ∈ s.entries, q.leavesOut e.key = true := by
  simp only [skips, decide_eq_true_eq, leavesOut_iff, Store.find?, List.find?_isSome]
  constructor
  · rintro ⟨hskip, hstart, e, he, hkey⟩
    exact ⟨e, he, hskip, hstart, hkey⟩
  · rintro ⟨e, he, hskip, hstart, hkey⟩
    exact ⟨hskip, hstart, e, he, hkey⟩

/-- A store has at most one entry under the start. -/
theorem skipped_cases (q : Query) (s : Store) :
    q.skips s = false ∧ q.skipped s = [] ∨
      q.skips s = true ∧ ∃ e, q.skipped s = [e] ∧ q.leavesOut e.key = true := by
  have hmem : ∀ e ∈ q.skipped s, e ∈ s.entries ∧ q.leavesOut e.key = true := by
    intro e he
    obtain ⟨he, hout⟩ := List.mem_filter.mp he
    exact ⟨Store.mem_walk.mp he, hout⟩
  have horder := (s.walk_pairwise q.direction).filter fun e => q.leavesOut e.key
  rw [← skipped] at horder
  match hskipped : q.skipped s with
  | [] =>
      refine .inl ⟨Bool.eq_false_iff.mpr fun hskips => ?_, rfl⟩
      obtain ⟨e, he, hout⟩ := (skips_iff q s).mp hskips
      have : e ∈ q.skipped s := List.mem_filter.mpr ⟨Store.mem_walk.mpr he, hout⟩
      rw [hskipped] at this
      cases this
  | [e] =>
      obtain ⟨he, hout⟩ := hmem e (by rw [hskipped]; exact List.mem_singleton_self e)
      exact .inr ⟨(skips_iff q s).mpr ⟨e, he, hout⟩, e, rfl, hout⟩
  | e :: e' :: rest =>
      -- Both would have the key of the start, yet one of them comes before the other.
      rw [hskipped] at horder hmem
      have hbefore := (List.pairwise_cons.mp horder).1 e' List.mem_cons_self
      have hkey := (leavesOut_iff.mp (hmem e List.mem_cons_self).2).2.2
      have hkey' := (leavesOut_iff.mp
        (hmem e' (List.mem_cons_of_mem e List.mem_cons_self)).2).2.2
      rw [hkey, hkey', Direction.before_irrefl] at hbefore
      cases hbefore

/-! ## Putting a cursor where the query begins -/

variable {σ : Type} [Cursor σ]

/-- A cursor that has sought the start of the query. -/
def seek (q : Query) (c : σ) : σ :=
  match q.startKey? with
  | none => Cursor.seekEdge q.direction c
  | some key => Cursor.seek q.direction key c

/-- The entries that a cursor steps over once it has sought the start: none, if
it does not stand on a start that is left out, or the one it stands on. -/
inductive Detour (q : Query) (c : σ) : List Entry → Prop
  | stays (h : q.skipStart = true → ∀ key, q.startKey? = some key →
      Cursor.valid c = true → ∃ here, Cursor.key c = .ok here ∧ here ≠ key) : Detour q c []
  | skips {e : Entry} (hskip : q.skipStart = true) (hkey : q.startKey? = some e.key) :
      Detour q c [e]

theorem position_of_passes {q : Query} {logging : Bool} {c c' : σ}
    {skipped es : List Entry} (hdetour : Detour q (q.seek c) skipped)
    (h : Passes logging q.direction (q.seek c) (skipped ++ es) c') :
    ∃ c₁, (q.position logging c).Yields c₁ () ∧ Passes logging q.direction c₁ es c' := by
  cases hdetour with
  | stays hstays =>
      refine ⟨q.seek c, ?_, h⟩
      rw [seek] at hstays ⊢
      rw [position]
      cases hkey : q.startKey? with
      | none => exact .ok
      | some key =>
          rw [hkey] at hstays
          dsimp only at hstays ⊢
          split
          · next hskip =>
              rw [leave]
              split
              · next hvalid =>
                  obtain ⟨here, hhere, hne⟩ := hstays hskip key rfl hvalid
                  rw [hhere, Outcome.ofLookup, if_neg hne]
                  exact .ok
              · exact .ok
          · exact .ok
  | skips hskip hkey =>
      cases h with
      | entry hvalid hhere _ hstep hrest =>
          refine ⟨_, ?_, hrest⟩
          rw [seek, hkey] at hvalid hhere hstep
          rw [position, hkey]
          dsimp only
          rw [if_pos hskip, leave, if_pos hvalid, hhere, Outcome.ofLookup, if_pos rfl]
          exact hstep

/-- A query takes the entries that the cursor passes behind the skipped one. -/
theorem run_of_passes {q : Query} {logging : Bool} {pageSize : UInt64} {index : Nat}
    {c c' : σ} {skipped es : List Entry} (hdetour : Detour q (q.seek c) skipped)
    (h : Passes logging q.direction (q.seek c) (skipped ++ es) c')
    (hkeeps : ∀ e ∈ es, q.filter.admits q.direction e.key = true)
    (hroom : ∀ m, limit? q.limit = some m → es.length ≤ m)
    (hstops : Stops q.direction (limit? q.limit) q.filter (pageOf q.limit pageSize es) c') :
    (q.run logging pageSize index c).Yields c' (pageOf q.limit pageSize es) := by
  obtain ⟨c₁, hposition, hpasses⟩ := position_of_passes hdetour h
  exact hposition.andThen (Outcome.Yields.report.andThen
    (fetch_of_passes hpasses hkeeps hroom hstops))

/-! ## The way of a store's cursor -/

variable {s : Store}

theorem ahead_seek (q : Query) (c : StoreCursor s) :
    (q.seek c).ahead q.direction = q.skipped s ++ q.candidates s := by
  rw [← reached_eq_append, seek, startKey?_eq]
  by_cases hstart : q.startKey = []
  · rw [if_pos hstart]
    have hall : ∀ e ∈ s.walk q.direction, q.reaches e.key = true :=
      fun e _ => reaches_of_no_start hstart e.key
    rw [List.filter_eq_self.mpr hall]
    exact StoreCursor.ahead_edge
  · rw [if_neg hstart]
    simp only [reaches_eq hstart]
    exact StoreCursor.ahead_notBefore _

theorem detour (q : Query) (c : StoreCursor s) : Detour q (q.seek c) (q.skipped s) := by
  rcases skipped_cases q s with ⟨hskips, hnil⟩ | ⟨-, e, hone, hout⟩
  · rw [hnil]
    refine .stays fun hskip key hkey hvalid => ?_
    obtain ⟨e, he⟩ := Option.isSome_iff_exists.mp hvalid
    refine ⟨e.key, StoreCursor.key_of_current he, fun heq => Bool.eq_false_iff.mp hskips ?_⟩
    rw [startKey?_eq] at hkey
    split at hkey
    · cases hkey
    · next hstart =>
        injection hkey with hkey
        exact (skips_iff q s).mpr ⟨e, (q.seek c).mem_entries he,
          leavesOut_iff.mpr ⟨hskip, hstart, heq.trans hkey.symm⟩⟩
  · obtain ⟨hskip, hstart, hkey⟩ := leavesOut_iff.mp hout
    rw [hone]
    refine .skips hskip ?_
    rw [startKey?_eq, if_neg hstart, hkey]

/-- The way of a query on a store: the skipped entry and the selection, and why
it stops behind them. -/
theorem exists_run_way (q : Query) (logging : Bool) (pageSize : UInt64) (c : StoreCursor s) :
    ∃ c', Passes logging q.direction (q.seek c) (q.skipped s ++ q.selection s) c' ∧
      Stops q.direction (limit? q.limit) q.filter
        (pageOf q.limit pageSize (q.selection s)) c' := by
  rw [selection_eq_taken]
  obtain ⟨c', -, hpasses, hstops⟩ :=
    StoreCursor.exists_way logging q.limit q.filter pageSize (q.ahead_seek c)
  exact ⟨c', hpasses, hstops⟩

theorem admits_of_mem_selection {q : Query} {e : Entry} (h : e ∈ q.selection s) :
    q.filter.admits q.direction e.key = true := by
  rw [selection_eq_taken] at h
  exact admits_of_mem_taken h

theorem length_selection_le {q : Query} {m : Nat} (h : limit? q.limit = some m) :
    (q.selection s).length ≤ m := by
  rw [selection_eq_taken]
  exact length_taken_le h

end Query

end PagedScan
