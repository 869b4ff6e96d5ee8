import Mathlib.Algebra.GroupWithZero.Nat
import PagedScan.Proofs.StoreWalk
import PagedScan.Store.Write

/-!
# A store is what was written to it

A put takes one entry in and whatever had its key out; an erasure only takes out.
Said of the entries as they lie in the list this is a permutation, `perm_insert`,
and the entries of any store are those under a key and the others, `perm_found`.
The two settle both questions at once. Which entries are there is read off the
members: an entry that was put stays until an operation has its key. How many
bytes they hold is read off the sums: `size` is counted along by subtraction,
and what is subtracted is a part of the sum, so the count stays exact and never
stops at zero.

After a history of writes, a failed batch among them, or of stores made anew, the
store is then the finite map that the history describes, under every view: by
key, by walking it, by its number of entries, by its size.
-/

namespace PagedScan

/-! ## Entries under a key, and the others -/

namespace Ascending

variable {entries : List Entry}

theorem perm_insert (h : Ascending entries) (e : Entry) :
    (insert e entries).Perm (e :: entries.filter fun x => x.key ≠ e.key) := by
  induction entries with
  | nil => exact .refl _
  | cons x xs ih =>
      obtain ⟨hx, hxs⟩ := List.pairwise_cons.mp h
      rw [insert]
      split
      · next hlt =>
          have hne : x.key ≠ e.key := fun heq => List.lt_irrefl e.key (heq ▸ hlt)
          rw [List.filter_cons_of_pos (by simpa using hne)]
          exact ((ih hxs).cons x).trans (.swap e x _)
      · next hnlt =>
          have hothers : ∀ y ∈ xs, y.key ≠ e.key := by
            intro y hy heq
            exact hnlt (heq ▸ hx y hy)
          have hstay : (xs.filter fun y => y.key ≠ e.key) = xs :=
            List.filter_eq_self.mpr fun y hy => decide_eq_true (hothers y hy)
          split
          · next heq =>
              rw [List.filter_cons_of_neg (by simpa using heq), hstay]
          · next hne => rw [List.filter_cons_of_pos (by simpa using hne), hstay]

theorem perm_found (h : Ascending entries) (key : Bytes) :
    entries.Perm ((entries.find? fun e => e.key = key).toList ++
      entries.filter fun e => e.key ≠ key) := by
  induction entries with
  | nil => exact .refl _
  | cons x xs ih =>
      obtain ⟨hx, hxs⟩ := List.pairwise_cons.mp h
      by_cases hkey : x.key = key
      · have hstay : (xs.filter fun y => y.key ≠ key) = xs := by
          refine List.filter_eq_self.mpr fun y hy => decide_eq_true fun heq => ?_
          exact List.lt_irrefl key (by simpa [heq, hkey] using hx y hy)
        rw [List.find?_cons_of_pos (by simpa using hkey),
          List.filter_cons_of_neg (by simpa using hkey), hstay]
        exact .refl _
      · rw [List.find?_cons_of_neg (by simpa using hkey),
          List.filter_cons_of_pos (by simpa using hkey)]
        exact ((ih hxs).cons x).trans List.perm_middle.symm

end Ascending

namespace Store

variable {s : Store} {e : Entry} {key value : Bytes}

/-! ## Which entries are there -/

theorem get?_eq_some_iff : s.get? key = some value ↔ ⟨key, value⟩ ∈ s.entries := by
  have hsplit := (s.ascending.perm_found key).mem_iff (a := ⟨key, value⟩)
  rw [List.mem_append, Option.mem_toList, List.mem_filter] at hsplit
  rw [get?, find?, hsplit, Option.map_eq_some_iff]
  constructor
  · rintro ⟨found, hfound, rfl⟩
    have hkey : found.key = key := by simpa using List.find?_some hfound
    exact .inl (hkey ▸ hfound)
  · rintro (hfound | ⟨-, hother⟩)
    · exact ⟨_, hfound, rfl⟩
    · exact absurd rfl (of_decide_eq_true hother)

theorem mem_apply {op : Op} : e ∈ (s.apply op).entries ↔
    op = .put e.key e.value ∨ e ∈ s.entries ∧ e.key ≠ op.key := by
  cases op with
  | put key value =>
      rw [apply, put, (s.ascending.perm_insert _).mem_iff, List.mem_cons, List.mem_filter,
        decide_eq_true_eq, Op.put.injEq]
      constructor
      · rintro (rfl | h)
        · exact .inl ⟨rfl, rfl⟩
        · exact .inr h
      · rintro (⟨rfl, rfl⟩ | h)
        · exact .inl rfl
        · exact .inr h
  | erase key =>
      rw [apply, erase, List.mem_filter, decide_eq_true_eq]
      simp [Op.key]

end Store

/-- What operations leave behind: an entry that one of them put, and whose key
none had after that. -/
def Op.Leaves (ops : List Op) (e : Entry) : Prop :=
  ∃ before after, ops = before ++ .put e.key e.value :: after ∧ ∀ op ∈ after, op.key ≠ e.key

theorem Op.leaves_cons {op : Op} {ops : List Op} {e : Entry} :
    Leaves (op :: ops) e ↔
      Leaves ops e ∨ op = .put e.key e.value ∧ ∀ op' ∈ ops, op'.key ≠ e.key := by
  constructor
  · rintro ⟨before, after, hops, hafter⟩
    cases before with
    | nil =>
        obtain ⟨rfl, rfl⟩ := List.cons.inj hops
        exact .inr ⟨rfl, hafter⟩
    | cons first before =>
        obtain ⟨rfl, rfl⟩ := List.cons.inj hops
        exact .inl ⟨before, after, rfl, hafter⟩
  · rintro (⟨before, after, rfl, hafter⟩ | ⟨rfl, hops⟩)
    · exact ⟨op :: before, after, rfl, hafter⟩
    · exact ⟨[], ops, rfl, hops⟩

theorem Store.mem_applyAll {s : Store} {ops : List Op} {e : Entry} :
    e ∈ (s.applyAll ops).entries ↔
      Op.Leaves ops e ∨ e ∈ s.entries ∧ ∀ op ∈ ops, op.key ≠ e.key := by
  induction ops generalizing s with
  | nil =>
      refine ⟨fun h => .inr ⟨h, by simp⟩, ?_⟩
      rintro (⟨before, after, hops, -⟩ | ⟨h, -⟩)
      · simp at hops
      · exact h
  | cons op ops ih =>
      rw [show s.applyAll (op :: ops) = (s.apply op).applyAll ops from rfl, ih, mem_apply,
        Op.leaves_cons, List.forall_mem_cons]
      constructor
      · rintro (h | ⟨rfl | ⟨h, hne⟩, hops⟩)
        · exact .inl (.inl h)
        · exact .inl (.inr ⟨rfl, hops⟩)
        · exact .inr ⟨h, hne.symm, hops⟩
      · rintro ((h | ⟨rfl, hops⟩) | ⟨h, hne, hops⟩)
        · exact .inl h
        · exact .inr ⟨.inl rfl, hops⟩
        · exact .inr ⟨.inr ⟨h, hne.symm⟩, hops⟩

/-! ## How many bytes they hold -/

/-- The bytes that entries hold together. -/
def total (entries : List Entry) : Nat :=
  (entries.map Entry.size).sum

theorem total_perm {entries entries' : List Entry} (h : entries.Perm entries') :
    total entries = total entries' :=
  (h.map Entry.size).sum_nat

theorem total_append (entries entries' : List Entry) :
    total (entries ++ entries') = total entries + total entries' := by
  rw [total, List.map_append, List.sum_append_nat]
  rfl

namespace Store

variable {s : Store}

/-- The entries of a store, as those under a key and the others. -/
theorem total_eq_held_add (s : Store) (key : Bytes) :
    total s.entries = s.held key + total (s.entries.filter fun e => e.key ≠ key) := by
  have hheld : total (s.find? key).toList = s.held key := by
    rw [held]
    cases s.find? key with
    | none => rfl
    | some old => simp [total]
  rw [total_perm (s.ascending.perm_found key), total_append, ← hheld]
  rfl

/-- The size of the store is the size of its entries. -/
def Exact (s : Store) : Prop :=
  s.size = total s.entries

theorem Exact.empty : Store.empty.Exact := rfl

theorem Exact.held_le (h : s.Exact) (key : Bytes) : s.held key ≤ s.size := by
  rw [h, s.total_eq_held_add key]
  exact Nat.le_add_right _ _

theorem Exact.put (h : s.Exact) (e : Entry) : (s.put e).Exact := by
  have hparts := s.total_eq_held_add e.key
  have hentries : total (s.put e).entries =
      e.size + total (s.entries.filter fun x => x.key ≠ e.key) :=
    total_perm (s.ascending.perm_insert e)
  have hsize : (s.put e).size = s.size + e.size - s.held e.key := rfl
  rw [Exact] at h ⊢
  omega

theorem Exact.erase (h : s.Exact) (key : Bytes) : (s.erase key).Exact := by
  have hparts := s.total_eq_held_add key
  have hentries : (s.erase key).entries = s.entries.filter fun e => e.key ≠ key := rfl
  have hsize : (s.erase key).size = s.size - s.held key := rfl
  rw [Exact] at h ⊢
  rw [← hentries] at hparts
  omega

theorem Exact.applyAll (h : s.Exact) (ops : List Op) : (s.applyAll ops).Exact := by
  induction ops generalizing s with
  | nil => exact h
  | cons op ops ih =>
      cases op with
      | put key value => exact ih (h.put ⟨key, value⟩)
      | erase key => exact ih (h.erase key)

end Store

/-! ## Histories -/

/-- The operations that a change applies. A batch that cannot be decoded applies
none. -/
def Write.ops : Write → List Op
  | put e => [.put e.key e.value]
  | erase key => [.erase key]
  | batch b => match b.ops with
    | .ok ops => ops
    | .error _ => []

theorem Write.run_eq (w : Write) (s : Store) : w.run s = s.applyAll w.ops := by
  cases w with
  | put e => rfl
  | erase key => rfl
  | batch b =>
      rw [run, Store.write, Write.ops]
      cases b.ops with
      | error e => rfl
      | ok ops => rfl

namespace Store

/-- What may be done with a store: somebody writes to it, or it gives way to one
made from entries. -/
inductive Call where
  | write (w : Write)
  | remake (entries : List Entry)

namespace Call

/-- The store after the call. -/
def run : Call → Store → Store
  | write w, s => w.run s
  | remake entries, _ => .ofList entries

/-- The operations that were applied to the store as it is after the call. -/
def record : Call → List Op → List Op
  | write w, ops => ops ++ w.ops
  | remake entries, _ => entries.map fun e => .put e.key e.value

end Call

/-- The store after these calls, empty at first. -/
def ofCalls (calls : List Call) : Store :=
  calls.foldl (fun s call => call.run s) .empty

/-- The operations that were applied to that store since it was empty. -/
def applied (calls : List Call) : List Op :=
  calls.foldl (fun ops call => call.record ops) []

theorem ofList_eq (entries : List Entry) :
    ofList entries = Store.empty.applyAll (entries.map fun e => .put e.key e.value) := by
  rw [ofList, applyAll, List.foldl_map]
  rfl

theorem run_applyAll (call : Call) (ops : List Op) :
    call.run (Store.empty.applyAll ops) = Store.empty.applyAll (call.record ops) := by
  cases call with
  | write w =>
      rw [Call.run, w.run_eq, Call.record, applyAll, applyAll, applyAll, List.foldl_append]
  | remake entries => exact ofList_eq entries

theorem ofCalls_eq (calls : List Call) : ofCalls calls = Store.empty.applyAll (applied calls) := by
  -- For any operations so far: a store made anew forgets them, so it is not enough to
  -- know what the later calls do to an empty one.
  have hrun : ∀ ops, calls.foldl (fun s call => call.run s) (Store.empty.applyAll ops) =
      Store.empty.applyAll (calls.foldl (fun ops call => call.record ops) ops) := by
    induction calls with
    | nil => exact fun ops => rfl
    | cons call calls ih =>
        intro ops
        rw [List.foldl_cons, List.foldl_cons, run_applyAll, ih]
  exact hrun []

/-! ## The store as a map -/

/-- A walk from one edge of a store to the other passes all its entries. -/
theorem passes_all (logging : Bool) (d : Direction) (s : Store) :
    ∃ c, Passes logging d (Cursor.seekEdge d s.cursor) (s.walk d) c ∧
      Cursor.valid c = false := by
  obtain ⟨c, hpasses, hrest⟩ :=
    StoreCursor.exists_passes logging (c := Cursor.seekEdge d s.cursor)
      (StoreCursor.ahead_edge.trans (List.append_nil _).symm)
  exact ⟨c, hpasses, StoreCursor.valid_eq_false hrest⟩

/-- After any calls on a store that began empty, failed batches among them, a key
has the value that was last put under it, unless it was erased since, and no
other. A cursor walking from the first entry until there is none passes exactly
these pairs, each once and in the order of their keys; the store counts as many
entries, and its size is the sum of theirs. No operation on the way took more off
the size than there was. -/
theorem ofCalls_maps (logging : Bool) (calls : List Call) :
    (∀ key value, (ofCalls calls).get? key = some value ↔
      ∃ before after, applied calls = before ++ .put key value :: after ∧
        ∀ op ∈ after, op.key ≠ key) ∧
    (∃ walked c,
      Passes logging .forward (Cursor.seekEdge .forward (ofCalls calls).cursor) walked c ∧
      Cursor.valid c = false ∧
      (walked.Pairwise fun x y => x.key < y.key) ∧
      (∀ e, e ∈ walked ↔ (ofCalls calls).get? e.key = some e.value) ∧
      (ofCalls calls).count = walked.length ∧
      (ofCalls calls).size = (walked.map fun e => e.key.length + e.value.length).sum) ∧
    ∀ before op after, applied calls = before ++ op :: after →
      (Store.empty.applyAll before).held op.key ≤ (Store.empty.applyAll before).size := by
  have hexact := Exact.empty.applyAll (applied calls)
  rw [← ofCalls_eq] at hexact
  refine ⟨?_, ?_, ?_⟩
  · intro key value
    rw [get?_eq_some_iff, ofCalls_eq, mem_applyAll]
    constructor
    · rintro (h | ⟨h, -⟩)
      · exact h
      · cases h
    · exact .inl
  · obtain ⟨c, hpasses, hend⟩ := passes_all logging .forward (ofCalls calls)
    exact ⟨_, c, hpasses, hend, (ofCalls calls).ascending, fun e => get?_eq_some_iff.symm,
      rfl, hexact⟩
  · intro before op after _
    exact (Exact.empty.applyAll before).held_le op.key

/-- A key put twice, once of it in a batch, behind a batch that is none; and another
key put and erased. -/
theorem ofCalls_maps_overwritten :
    ∃ calls : List Call, applied calls =
        [.put [98] [1], .put [97] [1], .put [97] [2, 3], .erase [98]] ∧
      (ofCalls calls).get? [97] = some [2, 3] ∧
      (Store.empty.applyAll [.put [98] [1], .put [97] [1]]).held [97] ≤
        (Store.empty.applyAll [.put [98] [1], .put [97] [1]]).size := by
  have happlied : applied [.remake [⟨[98], [1]⟩], .write (.put ⟨[97], [1]⟩),
      .write (.batch ⟨[1, 0]⟩),
      .write (.batch ⟨Word.encode 1 ++ Op.encode (.put [97] [2, 3])⟩),
      .write (.erase [98])] =
      [.put [98] [1], .put [97] [1], .put [97] [2, 3], .erase [98]] := rfl
  refine ⟨_, happlied, ?_, ?_⟩
  · exact ((ofCalls_maps false _).1 _ _).mpr
      ⟨[.put [98] [1], .put [97] [1]], [.erase [98]], happlied, by decide⟩
  · exact (ofCalls_maps false _).2.2 [.put [98] [1], .put [97] [1]] (.put [97] [2, 3])
      [.erase [98]] happlied

end Store

end PagedScan
