import PagedScan.Batch
import PagedScan.Store

/-!
# Writing to a store

A batch is decoded to the end before the first of its operations is applied, so
one that cannot be decoded leaves the store alone. An entry may also be put and
a key erased without a batch.
-/

namespace PagedScan

namespace Store

/-- The store after an operation. -/
def apply (s : Store) : Op → Store
  | .put key value => s.put ⟨key, value⟩
  | .erase key => s.erase key

/-- The store after these operations in order. -/
def applyAll (s : Store) (ops : List Op) : Store :=
  ops.foldl apply s

/-- Applies every operation of a batch, or none. -/
def write (b : Batch) (s : Store) : Outcome Corruption Store Unit :=
  match b.ops with
  | .error e => .fail s e
  | .ok ops => ⟨.ok (), s.applyAll ops, [.batchApplied ops.length]⟩

end Store

/-! ## Ways to write to a store -/

/-- A change that somebody makes to a store. -/
inductive Write where
  | put (e : Entry)
  | erase (key : Bytes)
  | batch (b : Batch)

namespace Op

/-- The key that an operation is about. -/
def key : Op → Bytes
  | put key _ => key
  | erase key => key

/-- The operation as a change of its own, without a batch. -/
def alone : Op → Write
  | put key value => .put ⟨key, value⟩
  | erase key => .erase key

end Op

namespace Write

/-- The store after the change. -/
def run : Write → Store → Store
  | put e, s => s.put e
  | erase key, s => s.erase key
  | batch b, s => (s.write b).state

end Write

namespace Store

/-- The store after these changes, each made by itself. -/
def writeEach (s : Store) (writes : List Write) : Store :=
  writes.foldl (fun s w => w.run s) s

/-- It makes no difference whether operations come in a batch or one by one. -/
theorem applyAll_eq_writeEach (s : Store) (ops : List Op) :
    s.applyAll ops = s.writeEach (ops.map Op.alone) := by
  induction ops generalizing s with
  | nil => rfl
  | cons op ops ih =>
      cases op with
      | put key value => exact ih (s.put ⟨key, value⟩)
      | erase key => exact ih (s.erase key)

end Store

end PagedScan
