import PagedScan.Direction

/-!
# The store

A store is a collection of entries, one for each key, in the order of their
keys. Putting and erasing keep the order, which is why a store carries the
proof of it; how many bytes the store holds is counted along, entry by entry.
-/

namespace PagedScan

/-- Entries in strictly ascending order of their keys. -/
def Ascending (entries : List Entry) : Prop :=
  entries.Pairwise fun a b => a.key < b.key

namespace Ascending

/-- The entries with one more, which takes the place of an entry with the same
key. -/
def insert (e : Entry) : List Entry → List Entry
  | [] => [e]
  | x :: xs =>
      if x.key < e.key then x :: insert e xs
      else if x.key = e.key then e :: xs
      else e :: x :: xs

theorem mem_insert {e x : Entry} {entries : List Entry}
    (h : x ∈ insert e entries) : x = e ∨ x ∈ entries := by
  induction entries with
  | nil => exact .inl (List.mem_singleton.mp h)
  | cons y ys ih =>
      rw [insert] at h
      split at h
      · rcases List.mem_cons.mp h with rfl | h
        · exact .inr List.mem_cons_self
        · exact (ih h).imp id (List.mem_cons_of_mem y)
      · split at h
        · exact (List.mem_cons.mp h).imp id (List.mem_cons_of_mem y)
        · exact List.mem_cons.mp h

theorem insert_ascending {entries : List Entry} (h : Ascending entries) (e : Entry) :
    Ascending (insert e entries) := by
  induction entries with
  | nil => exact List.pairwise_singleton _ _
  | cons x xs ih =>
      obtain ⟨hx, hxs⟩ := List.pairwise_cons.mp h
      rw [insert]
      split
      · next hlt =>
          refine List.pairwise_cons.mpr ⟨fun y hy => ?_, ih hxs⟩
          rcases mem_insert hy with rfl | hy
          · exact hlt
          · exact hx y hy
      · next hnlt =>
          split
          · next heq =>
              exact List.pairwise_cons.mpr ⟨fun y hy => heq ▸ hx y hy, hxs⟩
          · next hne =>
              have hlt : e.key < x.key :=
                Std.lt_of_le_of_ne (List.not_lt.mp hnlt) (Ne.symm hne)
              refine List.pairwise_cons.mpr ⟨fun y hy => ?_, h⟩
              rcases List.mem_cons.mp hy with rfl | hy
              · exact hlt
              · exact List.lt_trans hlt (hx y hy)

end Ascending

/-- Entries in order, and how many bytes they hold. -/
structure Store where
  entries : List Entry
  size : Nat
  ascending : Ascending entries

namespace Store

/-- The store without entries. -/
def empty : Store :=
  ⟨[], 0, List.Pairwise.nil⟩

instance : Inhabited Store := ⟨empty⟩

/-- How many entries the store holds. -/
def count (s : Store) : Nat :=
  s.entries.length

/-- Whether the store holds no entry. -/
def isEmpty (s : Store) : Bool :=
  s.entries.isEmpty

/-- The entry stored under a key. -/
def find? (s : Store) (key : Bytes) : Option Entry :=
  s.entries.find? fun e => e.key = key

/-- The value stored under a key. -/
def get? (s : Store) (key : Bytes) : Option Bytes :=
  (s.find? key).map Entry.value

/-- How many bytes would be given back if nothing were stored under the key. -/
def held (s : Store) (key : Bytes) : Nat :=
  match s.find? key with
  | some old => old.size
  | none => 0

/-- The store with a value put under a key, in place of what was there. -/
def put (s : Store) (e : Entry) : Store where
  entries := Ascending.insert e s.entries
  size := s.size + e.size - s.held e.key
  ascending := Ascending.insert_ascending s.ascending e

/-- The store with nothing under a key. -/
def erase (s : Store) (key : Bytes) : Store where
  entries := s.entries.filter fun e => e.key ≠ key
  size := s.size - s.held key
  ascending := s.ascending.filter _

/-- The store of these entries, of which later ones take the place of earlier
ones. -/
def ofList (entries : List Entry) : Store :=
  entries.foldl put empty

/-- The store that has, for each of these texts, the text as a key and the text
behind `val_` as its value. -/
def ofNames (names : List String) : Store :=
  ofList (names.map fun name => ⟨.ofText name, Bytes.ofText ("val_" ++ name)⟩)

/-- The entries in the order in which a walk meets them. -/
def walk (s : Store) : Direction → List Entry
  | .forward => s.entries
  | .backward => s.entries.reverse

theorem mem_walk {s : Store} {d : Direction} {e : Entry} :
    e ∈ s.walk d ↔ e ∈ s.entries := by
  cases d with
  | forward => exact Iff.rfl
  | backward => exact List.mem_reverse

end Store

end PagedScan
