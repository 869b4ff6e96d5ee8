import PagedScan.Cursor
import PagedScan.Store

/-!
# The cursor of a store

The cursor of a store remembers the entry it stands on and nothing else. Where
it goes from there is looked up in the store by the key of that entry: a step
goes to the first entry of the walk behind it. The store does not change while
it has a cursor, so the entry is always one of the store's, and the type says
so.
-/

namespace PagedScan

/-- A cursor over the store `s`. -/
structure StoreCursor (s : Store) where
  current : Option Entry
  mem_entries : ∀ {e}, current = some e → e ∈ s.entries

namespace StoreCursor

variable {s : Store}

/-- A cursor that has not been put anywhere. -/
def fresh (s : Store) : StoreCursor s :=
  ⟨none, by intro e h; cases h⟩

/-- The first entry of a walk that satisfies a condition. -/
def first (s : Store) (d : Direction) (condition : Entry → Bool) : StoreCursor s :=
  ⟨(s.walk d).find? condition,
    fun h => Store.mem_walk.mp (List.mem_of_find?_eq_some h)⟩

/-- The entry that a walk meets next behind this key. -/
def behind (s : Store) (d : Direction) (key : Bytes) : StoreCursor s :=
  first s d fun e => d.before key e.key

/-- The entry that a walk meets first at this key or behind it. -/
def notBefore (s : Store) (d : Direction) (key : Bytes) : StoreCursor s :=
  first s d fun e => !d.before e.key key

/-- The entry under the cursor. -/
def entry (c : StoreCursor s) : Except Misuse Entry :=
  match c.current with
  | some e => .ok e
  | none => .error .noEntry

/-- One step on. -/
def step (d : Direction) (c : StoreCursor s) : Outcome Misuse (StoreCursor s) Unit :=
  match c.current with
  | some e => .ok (behind s d e.key) ()
  | none => .fail c .noEntry

/-- The entries that a walk has yet to see: the current one and those behind
it. -/
def remaining (d : Direction) (c : StoreCursor s) : Nat :=
  match c.current with
  | some e => ((s.walk d).filter fun x => d.before e.key x.key).length + 1
  | none => 0

theorem remaining_step {d : Direction} {c : StoreCursor s}
    (h : (step d c).answer = .ok ()) :
    remaining d (step d c).state < remaining d c := by
  unfold step remaining at *
  split at h
  · next e he =>
      simp only [Outcome.ok, behind, first]
      split
      · next x hx =>
          have hbefore := List.find?_some hx
          have hmem := List.mem_of_find?_eq_some hx
          refine Nat.succ_lt_succ ?_
          have hsub : ((s.walk d).filter fun y => d.before x.key y.key) =
              ((s.walk d).filter fun y => d.before e.key y.key).filter
                fun y => d.before x.key y.key := by
            rw [List.filter_filter]
            refine List.filter_congr fun y _ => ?_
            cases hy : d.before x.key y.key with
            | false => rfl
            | true => rw [Direction.before_trans hbefore hy]; rfl
          rw [hsub]
          refine List.length_filter_lt_length_iff_exists.mpr
            ⟨x, List.mem_filter.mpr ⟨hmem, hbefore⟩, ?_⟩
          rw [Direction.before_irrefl]
          exact Bool.false_ne_true
      · exact Nat.succ_pos _
  · cases h

instance : Cursor (StoreCursor s) where
  valid c := c.current.isSome
  key c := c.entry.map Entry.key
  value c := c.entry.map Entry.value
  step _ d c := step d c
  seekEdge d _ := first s d fun _ => true
  seek d key _ := notBefore s d key
  failure _ := none
  remaining := remaining
  remaining_step _ h := remaining_step h

end StoreCursor

namespace Store

/-- A cursor over the store that has not been put anywhere. -/
def cursor (s : Store) : StoreCursor s :=
  StoreCursor.fresh s

end Store

end PagedScan
