import PagedScan.Bytes

/-!
# Pages

A page holds the entries of one fetch in the order the walk met them. Keys and
values lie end to end in one arena of bytes; an entry of the page is a slot,
which says where in the arena its key begins and how long key and value are.

The page also counts how many slots it has room for. The count starts at the
page size, doubles when an entry finds the room used up, and stops growing at
the largest 64-bit number.
-/

namespace PagedScan

/-- Where one entry lies in the arena: the key at `offset`, the value right
behind it. -/
structure Slot where
  offset : Nat
  keyLength : Nat
  valueLength : Nat
  deriving DecidableEq, Repr, Inhabited

namespace Slot

/-- Where the key ends and the value begins. -/
def middle (s : Slot) : Nat :=
  s.offset + s.keyLength

/-- Where the value ends. -/
def stop (s : Slot) : Nat :=
  s.middle + s.valueLength

end Slot

/-- The entries of one fetch. -/
structure Page where
  arena : Array UInt8 := #[]
  slots : Array Slot := #[]
  capacity : Nat
  deriving DecidableEq, Repr

namespace Page

/-- How many slots a page has room for when nothing else is asked. -/
def defaultSize : Nat := 512

/-- The largest room a page can have. -/
def maxCapacity : Nat := UInt64.size - 1

/-- The room that a page size asks for: zero asks for the default. -/
def roomFor (size : UInt64) : Nat :=
  if size = 0 then defaultSize else size.toNat

/-- A page without entries, with room for `size` of them. -/
def ofSize (size : UInt64) : Page :=
  { capacity := roomFor size }

instance : Inhabited Page := ⟨ofSize 0⟩

/-- How many entries the page holds. -/
def count (p : Page) : Nat :=
  p.slots.size

/-- Whether the page holds no entry. -/
def isEmpty (p : Page) : Bool :=
  p.slots.isEmpty

/-- The room after one entry more: twice as much if all of it was used. -/
def grown (p : Page) : Nat :=
  if p.count = p.capacity then min (2 * p.capacity) maxCapacity else p.capacity

/-- The page with one entry more at its end. -/
def append (p : Page) (e : Entry) : Page where
  arena := p.arena ++ e.key ++ e.value
  slots := p.slots.push ⟨p.arena.size, e.key.length, e.value.length⟩
  capacity := p.grown

@[simp] theorem count_append (p : Page) (e : Entry) : (p.append e).count = p.count + 1 := by
  simp [append, count]

/-- The bytes of the arena from `start` up to `stop`. -/
def bytesBetween (p : Page) (start stop : Nat) : Bytes :=
  (p.arena.extract start stop).toList

/-- The key that a slot points to. -/
def keyAt (p : Page) (s : Slot) : Bytes :=
  p.bytesBetween s.offset s.middle

/-- The value that a slot points to. -/
def valueAt (p : Page) (s : Slot) : Bytes :=
  p.bytesBetween s.middle s.stop

/-- The entry that a slot points to. -/
def entryAt (p : Page) (s : Slot) : Entry :=
  ⟨p.keyAt s, p.valueAt s⟩

/-- The entry at `index`, if the page has so many. -/
def get? (p : Page) (index : Nat) : Option Entry :=
  p.slots[index]?.map p.entryAt

/-- The keys in order. -/
def keys (p : Page) : List Bytes :=
  p.slots.toList.map p.keyAt

/-- The values in order. -/
def values (p : Page) : List Bytes :=
  p.slots.toList.map p.valueAt

/-- The entries in order. -/
def toList (p : Page) : List Entry :=
  p.slots.toList.map p.entryAt

variable {α : Type}

/-- Shows a visitor the entries from number `index` on until it declines one.
The visitor carries a state along; the answer is the last state and whether
every entry was accepted. -/
def visitFrom (visitor : α → Nat → Entry → α × Bool) (state : α) (index : Nat) :
    List Entry → α × Bool
  | [] => (state, true)
  | e :: rest =>
      match visitor state index e with
      | (state', true) => visitFrom visitor state' (index + 1) rest
      | (state', false) => (state', false)

/-- Shows a visitor the entries of the page in order until it declines one. -/
def visit (p : Page) (visitor : α → Nat → Entry → α × Bool) (state : α) : α × Bool :=
  visitFrom visitor state 0 p.toList

end Page

end PagedScan
