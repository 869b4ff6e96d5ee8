import PagedScan.Page

/-!
# A page lists what was appended to it

A slot is three numbers, and nothing in its type says that they point into the
arena. They do as long as the page is built by appending, and since the arena
only ever grows at its end, what a slot points to never changes afterwards. So
a page is, to whoever reads it, the list of the entries appended to it, in
order, and everything else in the library speaks of pages that way.
-/

namespace PagedScan.Page

/-- Every slot of the page lies inside its arena. -/
def Whole (p : Page) : Prop :=
  ∀ t ∈ p.slots.toList, t.stop ≤ p.arena.size

theorem whole_of_slots_eq {p : Page} (h : p.slots = #[]) : p.Whole := by
  intro t ht
  rw [h] at ht
  cases ht

theorem toList_of_slots_eq {p : Page} (h : p.slots = #[]) : p.toList = [] := by
  rw [toList, h]
  rfl

theorem size_arena_append (p : Page) (e : Entry) :
    (p.append e).arena.size = p.arena.size + e.key.length + e.value.length := by
  simp only [append, ← Array.length_toList, Array.toList_appendList, List.length_append]

theorem Whole.append {p : Page} (h : p.Whole) (e : Entry) : (p.append e).Whole := by
  intro t ht
  rw [size_arena_append]
  simp only [Page.append, Array.toList_push, List.mem_append, List.mem_singleton] at ht
  rcases ht with ht | rfl
  · have := h t ht
    omega
  · simp only [Slot.stop, Slot.middle]
    omega

/-- What lies inside the arena stays there when more is appended. -/
theorem bytesBetween_append {p : Page} {start stop : Nat} (h : stop ≤ p.arena.size)
    (e : Entry) : (p.append e).bytesBetween start stop = p.bytesBetween start stop := by
  have hlen : stop ≤ p.arena.toList.length := h
  simp only [bytesBetween, append, Array.toList_extract, Array.toList_appendList,
    List.extract_eq_take_drop, List.append_assoc]
  rw [← List.drop_take, ← List.drop_take, List.take_append_of_le_length hlen]

theorem entryAt_append {p : Page} {t : Slot} (h : t.stop ≤ p.arena.size) (e : Entry) :
    (p.append e).entryAt t = p.entryAt t := by
  have hmiddle : t.middle ≤ p.arena.size := Nat.le_trans (Nat.le_add_right _ _) h
  simp only [entryAt, keyAt, valueAt, bytesBetween_append h, bytesBetween_append hmiddle]

/-- The slot made for an entry points to that entry. -/
theorem entryAt_append_self (p : Page) (e : Entry) :
    (p.append e).entryAt ⟨p.arena.size, e.key.length, e.value.length⟩ = e := by
  simp only [entryAt, keyAt, valueAt, bytesBetween, append, Slot.middle, Slot.stop,
    Array.toList_extract, Array.toList_appendList, List.extract_eq_take_drop,
    Nat.add_sub_cancel_left, List.append_assoc]
  rw [← Array.length_toList, List.drop_left, List.take_left, List.drop_length_add_append,
    List.drop_left, List.take_length]

theorem toList_append {p : Page} (h : p.Whole) (e : Entry) :
    (p.append e).toList = p.toList ++ [e] := by
  have hold : ∀ t ∈ p.slots.toList, (p.append e).entryAt t = p.entryAt t :=
    fun t ht => entryAt_append (h t ht) e
  rw [toList, toList, ← List.map_congr_left hold]
  simp only [append, Array.toList_push, List.map_append, List.map_cons, List.map_nil]
  rw [← append, entryAt_append_self]

/-- The page with these entries appended in order. -/
def appendAll (p : Page) (entries : List Entry) : Page :=
  entries.foldl append p

@[simp] theorem appendAll_nil (p : Page) : p.appendAll [] = p := rfl

@[simp] theorem appendAll_cons (p : Page) (e : Entry) (entries : List Entry) :
    p.appendAll (e :: entries) = (p.append e).appendAll entries := rfl

theorem count_appendAll (p : Page) (entries : List Entry) :
    (p.appendAll entries).count = p.count + entries.length := by
  induction entries generalizing p with
  | nil => rfl
  | cons e entries ih =>
      rw [appendAll_cons, ih, count_append, List.length_cons]
      omega

theorem Whole.appendAll {p : Page} (h : p.Whole) (entries : List Entry) :
    (p.appendAll entries).Whole := by
  induction entries generalizing p with
  | nil => exact h
  | cons e entries ih => exact ih (h.append e)

theorem toList_appendAll {p : Page} (h : p.Whole) (entries : List Entry) :
    (p.appendAll entries).toList = p.toList ++ entries := by
  induction entries generalizing p with
  | nil => rw [appendAll_nil, List.append_nil]
  | cons e entries ih =>
      rw [appendAll_cons, ih (h.append e), toList_append h, List.append_assoc]
      rfl

theorem count_eq_length_toList (p : Page) : p.count = p.toList.length := by
  rw [toList, List.length_map]
  rfl

theorem isEmpty_iff (p : Page) : p.isEmpty = true ↔ p.toList = [] := by
  rw [toList, List.map_eq_nil_iff, ← List.isEmpty_iff, Array.isEmpty_toList]
  rfl

end PagedScan.Page
