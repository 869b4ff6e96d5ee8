import PagedScan.Batch.Op
import PagedScan.Outcome

/-!
# Batches

A batch is a string of bytes: a word that counts the operations, and then the
operations one behind the other. It may also be any other string of bytes that
somebody takes for a batch, and nothing is checked until it is decoded. In
particular the count is believed when operations are added: they go to the end
of the bytes, and the count is written over the first four.

An operation that a batch refuses leaves it as it was.
-/

namespace PagedScan

/-- Operations to be applied together, as bytes. -/
structure Batch where
  data : Bytes
  deriving DecidableEq, Repr

namespace Batch

/-- The batch without operations. -/
def empty : Batch :=
  ⟨Word.encode 0⟩

instance : Inhabited Batch := ⟨empty⟩

/-- How many operations the batch says it has. Too few bytes say nothing. -/
def count (b : Batch) : Nat :=
  match Word.decode? b.data with
  | some (n, _) => n
  | none => 0

/-- Whether the batch says that it has no operations. -/
def isEmpty (b : Batch) : Bool :=
  b.count == 0

/-- The bytes with a count written over the first four, of which there are four
afterwards in any case. -/
def withCount (n : Nat) (bytes : Bytes) : Bytes :=
  Word.encode n ++ bytes.drop Word.width

/-- The batch with one operation more. -/
def push (b : Batch) (op : Op) : Batch :=
  ⟨withCount (b.count + 1) (b.data ++ op.encode)⟩

/-- What an operation on a batch comes to. -/
abbrev Change := Outcome Refusal Batch Unit

/-- Adds an operation. -/
def add (op : Op) (b : Batch) : Change :=
  if b.count + 1 < Word.limit then
    match op.tooLong? with
    | some length => .fail b (.tooLong length)
    | none => .ok (b.push op) ()
  else .fail b .tooMany

/-- Adds a put. -/
def put (key value : Bytes) (b : Batch) : Change :=
  b.add (.put key value)

/-- Adds an erasure. -/
def erase (key : Bytes) (b : Batch) : Change :=
  b.add (.erase key)

/-- Adds one operation after the other, until one is refused. -/
def addMany : List Op → Batch → Change
  | [], b => .ok b ()
  | op :: ops, b => (b.add op).andThen fun b () => addMany ops b

/-- Adds a put for each key and the value with the same number. -/
def putMany (keys values : List Bytes) (b : Batch) : Change :=
  if keys.length = values.length then
    let ops := List.zipWith Op.put keys values
    match ops.findSome? Op.tooLong? with
    | some length => .fail b (.tooLong length)
    | none =>
        if b.count + keys.length < Word.limit then addMany ops b
        else .fail b .tooMany
  else .fail b (.unpaired keys.length values.length)

/-- Takes all operations out. -/
def clear (b : Batch) : Batch :=
  ⟨withCount 0 (b.data.take Word.width)⟩

/-- The operations of the batch. -/
def ops (b : Batch) : Except Corruption (List Op) :=
  match Word.decode? b.data with
  | none => .error .noWord
  | some (n, rest) => Op.decodeMany n rest

end Batch

end PagedScan
