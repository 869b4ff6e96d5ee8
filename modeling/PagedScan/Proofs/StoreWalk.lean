import PagedScan.Cursor.Stored
import PagedScan.Proofs.Passage

/-!
# What a cursor of a store has ahead

A cursor of a store remembers one entry and looks the next one up by key, every
time. What makes that a walk is the order of the store: behind an entry lie
exactly the entries with a later key, so the entries a cursor has `ahead` are
the one it stands on and all that the walk meets after it, and a step takes the
first of them off. No entry is met twice and none is skipped.

The lookups of the cursor are all of one kind. They ask for the first entry of
the walk that satisfies a condition, and the condition, once it holds, holds
for everything further along. So what is ahead of the entry found are all the
entries that satisfy it, which is `ahead_first`; the cursor's step and its
seeks are three instances.
-/

namespace PagedScan

/-! ## The order of a walk -/

theorem Store.walk_pairwise (s : Store) (d : Direction) :
    (s.walk d).Pairwise fun a b => d.before a.key b.key = true := by
  have hup : s.entries.Pairwise fun a b => decide (a.key < b.key) = true :=
    s.ascending.imp fun h => decide_eq_true h
  cases d with
  | forward => exact hup
  | backward => exact List.pairwise_reverse.mpr hup

/-- Of entries in the order of a walk, those that satisfy a condition which
lasts are the first one that does and all behind it. -/
theorem filter_of_lasting {d : Direction} {condition : Entry → Bool}
    (hlasts : ∀ x y : Entry, d.before x.key y.key = true → condition x = true →
      condition y = true)
    {entries : List Entry}
    (h : entries.Pairwise fun a b => d.before a.key b.key = true) :
    entries.filter condition = match entries.find? condition with
      | some e => e :: entries.filter fun x => d.before e.key x.key
      | none => [] := by
  induction entries with
  | nil => rfl
  | cons x xs ih =>
      obtain ⟨hx, hxs⟩ := List.pairwise_cons.mp h
      cases hc : condition x with
      | true =>
          have hself : ¬ d.before x.key x.key = true := by
            rw [Direction.before_irrefl]
            exact Bool.false_ne_true
          rw [List.find?_cons_of_pos hc, List.filter_cons_of_pos hc]
          dsimp only
          rw [List.filter_cons, if_neg hself, List.filter_eq_self.mpr hx,
            List.filter_eq_self.mpr fun y hy => hlasts x y (hx y hy) hc]
      | false =>
          have hneg : ¬ condition x = true := by rw [hc]; exact Bool.false_ne_true
          rw [List.find?_cons_of_neg hneg, List.filter_cons_of_neg hneg, ih hxs]
          split
          · next e he =>
              have hbefore := hx e (List.mem_of_find?_eq_some he)
              rw [List.filter_cons_of_neg]
              rw [Direction.before_asymm hbefore]
              exact Bool.false_ne_true
          · rfl

/-! Of entries in the order of a walk, those behind one of them are what follows
it, and those not before it are it and what follows it. -/

section Split

variable {d : Direction} {front rest : List Entry} {e : Entry}

theorem filter_notBefore (h : (front ++ e :: rest).Pairwise fun a b => d.before a.key b.key = true) :
    ((front ++ e :: rest).filter fun x => !d.before x.key e.key) = e :: rest := by
  obtain ⟨-, hrest, hfront⟩ := List.pairwise_append.mp h
  have hnone : (front.filter fun x => !d.before x.key e.key) = [] := by
    refine List.filter_eq_nil_iff.mpr fun x hx => ?_
    rw [hfront x hx e List.mem_cons_self]
    exact Bool.false_ne_true
  have hall : ∀ x ∈ e :: rest, (!d.before x.key e.key) = true := by
    refine List.forall_mem_cons.mpr ⟨?_, fun x hx => ?_⟩
    · rw [Direction.before_irrefl]
      rfl
    · rw [Direction.before_asymm ((List.pairwise_cons.mp hrest).1 x hx)]
      rfl
  rw [List.filter_append, hnone, List.nil_append, List.filter_eq_self.mpr hall]

theorem filter_behind (h : (front ++ e :: rest).Pairwise fun a b => d.before a.key b.key = true) :
    ((front ++ e :: rest).filter fun x => d.before e.key x.key) = rest := by
  obtain ⟨-, hrest, hfront⟩ := List.pairwise_append.mp h
  have hnone : ((front ++ [e]).filter fun x => d.before e.key x.key) = [] := by
    refine List.filter_eq_nil_iff.mpr fun x hx => ?_
    rcases List.mem_append.mp hx with hx | hx
    · rw [Direction.before_asymm (hfront x hx e List.mem_cons_self)]
      exact Bool.false_ne_true
    · rw [List.mem_singleton.mp hx, Direction.before_irrefl]
      exact Bool.false_ne_true
  rw [List.append_cons, List.filter_append, hnone, List.nil_append,
    List.filter_eq_self.mpr (List.pairwise_cons.mp hrest).1]

end Split

namespace StoreCursor

variable {s : Store} {d : Direction}

/-! An entry under the cursor can be read, and the cursor can be moved on from it. -/

theorem valid_of_current {c : StoreCursor s} {e : Entry} (h : c.current = some e) :
    Cursor.valid c = true := by
  show c.current.isSome = true
  rw [h]
  rfl

theorem key_of_current {c : StoreCursor s} {e : Entry} (h : c.current = some e) :
    Cursor.key c = .ok e.key := by
  show c.entry.map Entry.key = .ok e.key
  rw [entry, h]
  rfl

theorem value_of_current {c : StoreCursor s} {e : Entry} (h : c.current = some e) :
    Cursor.value c = .ok e.value := by
  show c.entry.map Entry.value = .ok e.value
  rw [entry, h]
  rfl

/-- A cursor that shows an entry stands on it. -/
theorem current_of_shown {c : StoreCursor s} {e : Entry} (hvalid : Cursor.valid c = true)
    (hkey : Cursor.key c = .ok e.key) (hvalue : Cursor.value c = .ok e.value) :
    c.current = some e := by
  obtain ⟨x, hx⟩ := Option.isSome_iff_exists.mp hvalid
  obtain ⟨key, value⟩ := e
  rw [key_of_current hx] at hkey
  rw [value_of_current hx] at hvalue
  cases hkey
  cases hvalue
  exact hx

theorem step_of_current {logging : Bool} {c : StoreCursor s} {e : Entry}
    (h : c.current = some e) : (Cursor.step logging d c).Yields (behind s d e.key) () := by
  show (step d c).Yields _ ()
  rw [step, h]
  exact .ok

/-- The entry under the cursor and those that a walk meets behind it. -/
def ahead (d : Direction) (c : StoreCursor s) : List Entry :=
  match c.current with
  | some e => e :: (s.walk d).filter fun x => d.before e.key x.key
  | none => []

theorem current_eq_head? (d : Direction) (c : StoreCursor s) :
    c.current = (c.ahead d).head? := by
  rw [ahead]
  split
  · next e he => exact he
  · next hnone => exact hnone

theorem ahead_first {condition : Entry → Bool}
    (hlasts : ∀ x y : Entry, d.before x.key y.key = true → condition x = true →
      condition y = true) :
    (first s d condition).ahead d = (s.walk d).filter condition := by
  rw [filter_of_lasting hlasts (s.walk_pairwise d)]
  rfl

theorem ahead_behind (key : Bytes) :
    (behind s d key).ahead d = (s.walk d).filter fun e => d.before key e.key :=
  ahead_first fun _ _ hxy hx => Direction.before_trans hx hxy

theorem ahead_notBefore (key : Bytes) :
    (notBefore s d key).ahead d = (s.walk d).filter fun e => !d.before e.key key := by
  refine ahead_first fun x y hxy hx => ?_
  cases hy : d.before y.key key with
  | false => rfl
  | true => rw [Direction.before_trans hxy hy] at hx; exact hx

theorem ahead_edge : (first s d fun _ => true).ahead d = s.walk d := by
  rw [ahead_first fun _ _ _ _ => rfl]
  exact List.filter_eq_self.mpr fun _ _ => rfl

/-- A cursor stands on the first entry it has ahead, and stepping behind that
entry leaves the others. -/
theorem of_ahead_eq_cons {c : StoreCursor s} {e : Entry} {rest : List Entry}
    (h : c.ahead d = e :: rest) :
    c.current = some e ∧ (behind s d e.key).ahead d = rest := by
  have hcurrent : c.current = some e := by rw [current_eq_head? d, h]; rfl
  refine ⟨hcurrent, ?_⟩
  simp only [ahead, hcurrent, List.cons.injEq, true_and] at h
  rw [ahead_behind, h]

/-- A cursor that seeks the key it stands on stays there. -/
theorem ahead_notBefore_of_current {c : StoreCursor s} {e : Entry} (h : c.current = some e) :
    (notBefore s d e.key).ahead d = c.ahead d := by
  obtain ⟨front, rest, hsplit⟩ := List.append_of_mem (Store.mem_walk.mpr (c.mem_entries h))
  have horder := s.walk_pairwise d
  rw [hsplit] at horder
  rw [ahead_notBefore, ahead, h, hsplit, filter_notBefore horder]
  dsimp only
  rw [filter_behind horder]

theorem valid_eq_false {c : StoreCursor s} (h : c.ahead d = []) :
    Cursor.valid c = false := by
  show c.current.isSome = false
  rw [current_eq_head? d, h]
  rfl

theorem key_of_ahead {c : StoreCursor s} {e : Entry} {rest : List Entry}
    (h : c.ahead d = e :: rest) : Cursor.key c = .ok e.key :=
  key_of_current (of_ahead_eq_cons h).1

theorem passes_one {logging : Bool} {c : StoreCursor s} {e : Entry} {rest : List Entry}
    (h : c.ahead d = e :: rest) :
    Passes logging d c [e] (behind s d e.key) := by
  have hcurrent := (of_ahead_eq_cons h).1
  exact .entry (valid_of_current hcurrent) (key_of_current hcurrent)
    (value_of_current hcurrent) (step_of_current hcurrent) (.nothing _)

/-- A cursor passes any first part of what it has ahead, and has the rest of it
ahead then. -/
theorem exists_passes (logging : Bool) {es rest : List Entry} {c : StoreCursor s}
    (h : c.ahead d = es ++ rest) :
    ∃ c', Passes logging d c es c' ∧ c'.ahead d = rest := by
  induction es generalizing c with
  | nil => exact ⟨c, .nothing c, h⟩
  | cons e es ih =>
      obtain ⟨c', hpasses, hrest⟩ := ih (of_ahead_eq_cons h).2
      exact ⟨c', (passes_one h).trans hpasses, hrest⟩

end StoreCursor

/-! ## What a fetch takes -/

/-- The first entries of a list: as many as the limit says, if it says any. -/
def cut (limit : Int64) (entries : List Entry) : List Entry :=
  if 0 < limit.toInt then entries.take limit.toInt.toNat else entries

/-- Of the entries ahead of a cursor, those that a fetch takes. -/
def taken (d : Direction) (limit : Int64) (f : Filter) (ahead : List Entry) : List Entry :=
  cut limit (ahead.takeWhile fun e => f.admits d e.key)

/-- What begins the entries that pass a test without a break begins them all. -/
theorem eq_append_of_takeWhile {test : Entry → Bool} {entries init rest : List Entry}
    (h : entries.takeWhile test = init ++ rest) :
    entries = init ++ (rest ++ entries.dropWhile test) := by
  rw [← List.append_assoc, ← h, List.takeWhile_append_dropWhile]

theorem cut_isPrefix (limit : Int64) (entries : List Entry) : cut limit entries <+: entries := by
  rw [cut]
  split
  · exact List.take_prefix _ _
  · exact List.prefix_rfl

theorem taken_isPrefix (d : Direction) (limit : Int64) (f : Filter) (ahead : List Entry) :
    taken d limit f ahead <+: ahead := by
  have hwhile := List.takeWhile_prefix (fun e : Entry => f.admits d e.key) (l := ahead)
  exact (cut_isPrefix _ _).trans hwhile

theorem admits_of_mem_taken {d : Direction} {limit : Int64} {f : Filter}
    {ahead : List Entry} {e : Entry} (h : e ∈ taken d limit f ahead) :
    f.admits d e.key = true :=
  List.all_eq_true.mp List.all_takeWhile e ((cut_isPrefix _ _).subset h)

theorem length_taken_le {d : Direction} {limit : Int64} {f : Filter}
    {ahead : List Entry} {m : Nat} (h : limit? limit = some m) :
    (taken d limit f ahead).length ≤ m := by
  rw [limit?] at h
  rw [taken, cut]
  split at h
  · next hpos =>
      injection h with h
      rw [if_pos hpos, ← h]
      exact List.length_take_le _ _
  · cases h

/-- A fetch that takes less than its limit has taken all that its filter admits
without a break. -/
theorem taken_eq_takeWhile {d : Direction} {limit : Int64} {f : Filter}
    {ahead : List Entry}
    (h : ∀ m, limit? limit = some m → (taken d limit f ahead).length < m) :
    taken d limit f ahead = ahead.takeWhile fun e => f.admits d e.key := by
  rw [taken, cut] at h ⊢
  split
  · next hpos =>
      have hlt := h limit.toInt.toNat (if_pos hpos)
      rw [if_pos hpos, List.length_take] at hlt
      exact List.take_of_length_le (by omega)
  · rfl

namespace StoreCursor

variable {s : Store} {d : Direction}

/-- A cursor that has passed what a fetch takes has come to where it stops. -/
theorem stops_of_ahead {limit : Int64} {f : Filter} {pageSize : UInt64}
    {entries : List Entry} {c : StoreCursor s}
    (h : entries = taken d limit f entries ++ c.ahead d) :
    Stops d (limit? limit) f (pageOf limit pageSize (taken d limit f entries)) c := by
  by_cases hfull : isFull (limit? limit) (pageOf limit pageSize (taken d limit f entries))
  · exact .full hfull
  · have hall : taken d limit f entries = entries.takeWhile fun e => f.admits d e.key := by
      refine taken_eq_takeWhile fun m hm => ?_
      rw [hm, isFull, count_pageOf, decide_eq_true_eq] at hfull
      omega
    have hrest : taken d limit f entries ++ c.ahead d =
        taken d limit f entries ++ entries.dropWhile fun e => f.admits d e.key := by
      rw [← h, hall, List.takeWhile_append_dropWhile]
    replace hrest := List.append_cancel_left hrest
    cases hahead : c.ahead d with
    | nil => exact .ended (valid_eq_false hahead)
    | cons e rest =>
        have hhead := List.head?_dropWhile_not (fun e => f.admits d e.key) entries
        rw [← hrest, hahead] at hhead
        exact .refused (key_of_ahead hahead) (by simpa using hhead)

/-- A cursor with some entries to skip and others behind them passes, of the
others, what a fetch takes, and stops there. -/
theorem exists_way (logging : Bool) (limit : Int64) (f : Filter) (pageSize : UInt64)
    {skipped entries : List Entry} {c : StoreCursor s} (h : c.ahead d = skipped ++ entries) :
    ∃ c', entries = taken d limit f entries ++ c'.ahead d ∧
      Passes logging d c (skipped ++ taken d limit f entries) c' ∧
      Stops d (limit? limit) f (pageOf limit pageSize (taken d limit f entries)) c' := by
  obtain ⟨rest, hrest⟩ := taken_isPrefix d limit f entries
  rw [← hrest, ← List.append_assoc] at h
  obtain ⟨c', hpasses, rfl⟩ := exists_passes logging h
  exact ⟨c', hrest.symm, hpasses, stops_of_ahead hrest.symm⟩

/-- A fetch takes what it may of the entries ahead and leaves the others. -/
theorem exists_fetch (logging : Bool) (limit : Int64) (f : Filter) (pageSize : UInt64)
    (c : StoreCursor s) :
    ∃ c', c.ahead d = taken d limit f (c.ahead d) ++ c'.ahead d ∧
      (fetch logging d limit f pageSize c).Yields c'
        (pageOf limit pageSize (taken d limit f (c.ahead d))) := by
  obtain ⟨c', hahead, hpasses, hstops⟩ :=
    exists_way logging limit f pageSize (List.nil_append (c.ahead d)).symm
  exact ⟨c', hahead, fetch_of_passes hpasses (fun _ => admits_of_mem_taken)
    (fun _ => length_taken_le) hstops⟩

end StoreCursor

end PagedScan
