import PagedScan.Proofs.OpCodec
import PagedScan.Store.Write

/-!
# A batch replays what it accepted

A batch that began empty says truly how many operations it has, and holds
nothing but them. `Holds` is that invariant on its bytes. Each way to change a
batch keeps it: an operation goes to the end and the word at the front is
written anew, and a refused one changes nothing, because everything that could
refuse it is looked at before the first byte is written. For many puts at once
the reason is more subtle. They are checked together and then added one by one,
and none of these may be refused any more; what the first check says of the
count still holds of each, as the invariant says what the count is at each.

The bytes then decode to the operations, and writing the batch to a store comes
to applying them in order.
-/

namespace PagedScan

namespace Batch

/-- The bytes of the batch are these operations behind their count. -/
structure Holds (b : Batch) (ops : List Op) : Prop where
  data : b.data = Word.encode ops.length ++ ops.flatMap Op.encode
  few : ops.length < Word.limit
  short : ∀ op ∈ ops, op.tooLong? = none

namespace Holds

variable {b : Batch} {ops : List Op}

theorem empty : Batch.empty.Holds [] where
  data := rfl
  few := by decide
  short := by
    intro op hop
    cases hop

theorem count (h : b.Holds ops) : b.count = ops.length := by
  rw [Batch.count, h.data, Word.decode?_encode h.few]

theorem ops_eq (h : b.Holds ops) : b.ops = .ok ops := by
  rw [Batch.ops, h.data, Word.decode?_encode h.few]
  dsimp only
  rw [← List.append_nil (ops.flatMap Op.encode), Op.decodeMany_flatMap h.short]

theorem push (h : b.Holds ops) {op : Op} (hfew : ops.length + 1 < Word.limit)
    (hshort : op.tooLong? = none) : (b.push op).Holds (ops ++ [op]) where
  data := by
    rw [Batch.push, withCount, h.count, h.data, List.append_assoc,
      List.drop_left' (Word.length_encode _), List.flatMap_append, List.length_append]
    simp
  few := by
    rw [List.length_append]
    exact hfew
  short := List.forall_mem_append.mpr ⟨h.short, List.forall_mem_singleton.mpr hshort⟩

theorem clear (h : b.Holds ops) : b.clear.Holds [] where
  data := by
    rw [Batch.clear, withCount, h.data, List.take_left' (Word.length_encode _)]
    rfl
  few := by decide
  short := by
    intro op hop
    cases hop

end Holds

/-- A short operation for which there is room is accepted. -/
theorem yields_add {b : Batch} {op : Op} (hfew : b.count + 1 < Word.limit)
    (hshort : op.tooLong? = none) : (b.add op).Yields (b.push op) () := by
  rw [Batch.add, if_pos hfew, hshort]
  exact .ok

/-- A change that was accepted and made the batch hold `ops`, or was refused and
left the batch alone. -/
def Change.Settles (o : Change) (b : Batch) (ops : List Op) : Prop :=
  (∃ b', o.Yields b' () ∧ b'.Holds ops) ∨ ∃ r, o = .fail b r

namespace Holds

variable {b : Batch} {ops : List Op}

theorem add (h : b.Holds ops) (op : Op) : (b.add op).Settles b (ops ++ [op]) := by
  rw [Batch.add]
  split
  · next hfew =>
      rw [h.count] at hfew
      split
      · exact .inr ⟨_, rfl⟩
      · next hshort => exact .inl ⟨_, .ok, h.push hfew hshort⟩
  · exact .inr ⟨_, rfl⟩

/-- Operations that are short and for which there is room are all accepted. -/
theorem addMany {added : List Op} (h : b.Holds ops)
    (hfew : ops.length + added.length < Word.limit)
    (hshort : ∀ op ∈ added, op.tooLong? = none) :
    ∃ b', (addMany added b).Yields b' () ∧ b'.Holds (ops ++ added) := by
  induction added generalizing b ops with
  | nil => exact ⟨b, .ok, by rw [List.append_nil]; exact h⟩
  | cons op added ih =>
      obtain ⟨hop, hadded⟩ := List.forall_mem_cons.mp hshort
      rw [List.length_cons] at hfew
      have hroom : ops.length + 1 < Word.limit := by omega
      have haccepted : (b.add op).Yields (b.push op) () :=
        yields_add (by rw [h.count]; exact hroom) hop
      obtain ⟨b', hyields, hholds⟩ := ih (h.push hroom hop)
        (by rw [List.length_append, List.length_singleton]; omega) hadded
      rw [List.append_assoc] at hholds
      exact ⟨b', haccepted.andThen hyields, hholds⟩

theorem putMany (h : b.Holds ops) (keys values : List Bytes) :
    (b.putMany keys values).Settles b (ops ++ List.zipWith Op.put keys values) := by
  rw [Batch.putMany]
  split
  · next hpaired =>
      dsimp only
      split
      · exact .inr ⟨_, rfl⟩
      · next hshort =>
          split
          · next hfew =>
              rw [h.count] at hfew
              refine .inl (h.addMany ?_ (List.findSome?_eq_none_iff.mp hshort))
              rw [List.length_zipWith, ← hpaired, Nat.min_self]
              exact hfew
          · exact .inr ⟨_, rfl⟩
  · exact .inr ⟨_, rfl⟩

end Holds

/-! ## Any calls in any order -/

/-- A call that changes a batch. -/
inductive Call where
  | put (key value : Bytes)
  | erase (key : Bytes)
  | putMany (keys values : List Bytes)
  | clear

namespace Call

/-- What the call comes to. -/
def run : Call → Batch → Change
  | put key value, b => b.put key value
  | erase key, b => b.erase key
  | putMany keys values, b => b.putMany keys values
  | clear, b => .ok b.clear ()

/-- The operations accepted since the last clear, once the call is accepted. -/
def record : Call → List Op → List Op
  | put key value, ops => ops ++ [.put key value]
  | erase key, ops => ops ++ [.erase key]
  | putMany keys values, ops => ops ++ List.zipWith Op.put keys values
  | clear, _ => []

theorem settles {b : Batch} {ops : List Op} (h : b.Holds ops) (call : Call) :
    (call.run b).Settles b (call.record ops) := by
  cases call with
  | put key value => exact h.add _
  | erase key => exact h.add _
  | putMany keys values => exact h.putMany keys values
  | clear => exact .inl ⟨_, .ok, h.clear⟩

end Call

/-- A batch, and the operations it has accepted since it was cleared. -/
structure Journal where
  batch : Batch
  accepted : List Op

namespace Journal

/-- The journal of an empty batch. -/
def empty : Journal := ⟨.empty, []⟩

/-- The journal after a call. One that is refused adds nothing to it. -/
def after (j : Journal) (call : Call) : Journal where
  batch := (call.run j.batch).state
  accepted := match (call.run j.batch).answer with
    | .ok () => call.record j.accepted
    | .error _ => j.accepted

/-- The journal after these calls on an empty batch. -/
def ofCalls (calls : List Call) : Journal :=
  calls.foldl after empty

theorem holds_after {j : Journal} (h : j.batch.Holds j.accepted) (call : Call) :
    (j.after call).batch.Holds (j.after call).accepted := by
  rw [after]
  rcases call.settles h with ⟨b', ⟨hanswer, hstate⟩, hholds⟩ | ⟨r, hrefused⟩
  · rw [hanswer, hstate]
    exact hholds
  · rw [hrefused]
    exact h

theorem holds_foldl {j : Journal} (h : j.batch.Holds j.accepted) (calls : List Call) :
    (calls.foldl after j).batch.Holds (calls.foldl after j).accepted := by
  induction calls generalizing j with
  | nil => exact h
  | cons call calls ih => exact ih (holds_after h call)

end Journal

end Batch

theorem Store.write_of_ops {b : Batch} {ops : List Op} (h : b.ops = .ok ops) (s : Store) :
    (s.write b).Yields (s.writeEach (ops.map Op.alone)) () := by
  rw [Store.write, h, ← applyAll_eq_writeEach]
  exact ⟨rfl, rfl⟩

/-- After any calls on a batch that began empty, refused ones among them, the
batch counts the operations accepted since it was last cleared, its bytes are
these operations behind their count, and writing it to a store, or writing any
batch with the same bytes, comes to the same as putting and erasing directly
what they put and erase, in order. -/
theorem Batch.journal_replays (calls : List Call) :
    (Journal.ofCalls calls).batch.count = (Journal.ofCalls calls).accepted.length ∧
    (Journal.ofCalls calls).batch.data =
      Word.encode (Journal.ofCalls calls).accepted.length ++
        (Journal.ofCalls calls).accepted.flatMap Op.encode ∧
    ∀ s : Store,
      (s.write (Journal.ofCalls calls).batch).Yields
        (s.writeEach ((Journal.ofCalls calls).accepted.map Op.alone)) () ∧
      (s.write ⟨(Journal.ofCalls calls).batch.data⟩).Yields
        (s.writeEach ((Journal.ofCalls calls).accepted.map Op.alone)) () := by
  have h : (Journal.ofCalls calls).batch.Holds (Journal.ofCalls calls).accepted :=
    Journal.holds_foldl (j := .empty) .empty calls
  exact ⟨h.count, h.data, fun s => ⟨s.write_of_ops h.ops_eq, s.write_of_ops h.ops_eq⟩⟩

end PagedScan
