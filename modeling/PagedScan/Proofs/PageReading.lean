import PagedScan.Direction
import PagedScan.Page.Iter
import PagedScan.Proofs.PageContents

/-!
# Every way to read a page

A page may be read by index, by its keys or values, from either end, or by a
visitor, and each of these goes through the slots on its own. What they have in
common is the list that `PageContents` reads off the slots, so each way of
reading is settled by what it does to that list.

An iterator stands for the entries that neither end has reached, which `rest`
cuts out of the list; pulling from the front takes the first of them and pulling
from the back the last. A visitor is shown the list from its front, and `Accepts`
is the record of what it was shown as long as it went along: which entry, under
which number, in which state.
-/

namespace PagedScan.Page

variable {p : Page}

/-! ## Reading the slots one by one -/

theorem keys_eq (p : Page) : p.keys = p.toList.map Entry.key := by
  rw [keys, toList, List.map_map]
  rfl

theorem values_eq (p : Page) : p.values = p.toList.map Entry.value := by
  rw [values, toList, List.map_map]
  rfl

theorem get?_eq (p : Page) (index : Nat) : p.get? index = p.toList[index]? := by
  rw [get?, toList, List.getElem?_map, Array.getElem?_toList]

/-! ## Reading from either end -/

namespace Iter

/-- Pulls from the end that a walk in this direction begins at. -/
def pull (d : Direction) (it : Iter) : Option Entry × Iter :=
  match d with
  | .forward => it.next
  | .backward => it.nextBack

/-- The entries that neither end has reached. -/
def rest (it : Iter) : List Entry :=
  (it.page.toList.take it.back).drop it.front

/-- The iterator does not reach behind its page. -/
def Within (it : Iter) : Prop :=
  it.back ≤ it.page.toList.length

variable {it : Iter} {d : Direction}

theorem length_rest (h : it.Within) : it.rest.length = it.left := by
  rw [rest, List.length_drop, List.length_take, Nat.min_eq_left h, left]

theorem lt_of_rest_ne_nil (h : it.Within) (hrest : it.rest ≠ []) : it.front < it.back := by
  have hlength := length_rest h
  have hpos := List.length_pos_iff.mpr hrest
  rw [left] at hlength
  omega

/-- What an iterator has left begins with the entry at its front. -/
theorem rest_eq_cons (h : it.Within) (hlt : it.front < it.back) :
    ∃ e, it.page.get? it.front = some e ∧
      it.rest = e :: { it with front := it.front + 1 }.rest := by
  have hlength : it.front < (it.page.toList.take it.back).length := by
    rw [List.length_take, Nat.min_eq_left h]
    exact hlt
  refine ⟨_, ?_, List.drop_eq_getElem_cons hlength⟩
  rw [get?_eq, List.getElem_take, List.getElem?_eq_getElem]

/-- What an iterator has left ends with the entry before its back. -/
theorem rest_eq_concat (h : it.Within) (hlt : it.front < it.back) :
    ∃ e, it.page.get? (it.back - 1) = some e ∧
      it.rest = { it with back := it.back - 1 }.rest ++ [e] := by
  have hlast : it.back - 1 < it.page.toList.length := by
    have hwithin : it.back ≤ it.page.toList.length := h
    omega
  have htake : it.page.toList.take it.back =
      it.page.toList.take (it.back - 1) ++ [it.page.toList[it.back - 1]] := by
    rw [List.take_append_getElem, Nat.sub_add_cancel (Nat.zero_lt_of_lt hlt)]
  refine ⟨it.page.toList[it.back - 1], ?_, ?_⟩
  · rw [get?_eq, List.getElem?_eq_getElem hlast]
  · rw [rest, htake, List.drop_append_of_le_length]
    · rfl
    · rw [List.length_take]
      omega

/-- Pulling takes the first entry that is left, seen in the direction. -/
theorem pull_of_rest {e : Entry} {es : List Entry} (h : it.Within)
    (hrest : it.rest = match d with | .forward => e :: es | .backward => es ++ [e]) :
    ∃ it', it.pull d = (some e, it') ∧ it'.Within ∧ it'.rest = es := by
  have hlt : it.front < it.back := by
    refine lt_of_rest_ne_nil h ?_
    rw [hrest]
    cases d <;> simp
  cases d with
  | forward =>
      obtain ⟨x, hget, hcons⟩ := rest_eq_cons h hlt
      rw [hrest] at hcons
      obtain ⟨rfl, rfl⟩ := List.cons.inj hcons
      refine ⟨{ it with front := it.front + 1 }, ?_, h, rfl⟩
      rw [pull, next, if_pos hlt, hget]
  | backward =>
      obtain ⟨x, hget, hconcat⟩ := rest_eq_concat h hlt
      rw [hrest] at hconcat
      obtain ⟨rfl, hx⟩ := List.append_inj' hconcat rfl
      obtain rfl := List.singleton_inj.mp hx
      refine ⟨{ it with back := it.back - 1 }, ?_, Nat.le_trans (Nat.sub_le _ _) h, rfl⟩
      rw [pull, nextBack, if_pos hlt, hget]

theorem pull_of_rest_nil (h : it.Within) (hrest : it.rest = []) : it.pull d = (none, it) := by
  have hnot : ¬ it.front < it.back := by
    have hlength := length_rest h
    rw [hrest, List.length_nil, left] at hlength
    omega
  cases d with
  | forward => exact if_neg hnot
  | backward => exact if_neg hnot

theorem left_pull_lt {e : Entry} {it' : Iter} (h : it.pull d = (some e, it')) :
    it'.left < it.left := by
  cases d with
  | forward =>
      rw [pull, next] at h
      split at h
      · obtain ⟨-, rfl⟩ := Prod.mk.inj h
        simp only [left]
        omega
      · cases h
  | backward =>
      rw [pull, nextBack] at h
      split at h
      · obtain ⟨-, rfl⟩ := Prod.mk.inj h
        simp only [left]
        omega
      · cases h

/-- Everything that is pulled from one end until nothing comes. -/
def collect (d : Direction) (it : Iter) : List Entry :=
  match _h : it.pull d with
  | (some e, it') => e :: collect d it'
  | (none, _) => []
termination_by it.left
decreasing_by exact left_pull_lt _h

theorem collect_of_pull {e : Entry} {it' : Iter} (h : it.pull d = (some e, it')) :
    it.collect d = e :: it'.collect d := by
  rw [collect]
  split
  · next hpull => rw [h] at hpull; cases hpull; rfl
  · next hpull => rw [h] at hpull; cases hpull

theorem collect_of_pull_none {it' : Iter} (h : it.pull d = (none, it')) :
    it.collect d = [] := by
  rw [collect]
  split
  · next hpull => rw [h] at hpull; cases hpull
  · rfl

theorem collect_forward {es : List Entry} (h : it.Within) (hrest : it.rest = es) :
    it.collect .forward = es := by
  induction es generalizing it with
  | nil => exact collect_of_pull_none (pull_of_rest_nil h hrest)
  | cons e es ih =>
      obtain ⟨it', hpull, hwithin, hrest'⟩ := pull_of_rest (d := .forward) h hrest
      rw [collect_of_pull hpull, ih hwithin hrest']

theorem collect_backward {es : List Entry} (h : it.Within) (hrest : it.rest = es.reverse) :
    it.collect .backward = es := by
  induction es generalizing it with
  | nil => exact collect_of_pull_none (pull_of_rest_nil h hrest)
  | cons e es ih =>
      rw [List.reverse_cons] at hrest
      obtain ⟨it', hpull, hwithin, hrest'⟩ := pull_of_rest (d := .backward) h hrest
      rw [collect_of_pull hpull, ih hwithin hrest']

end Iter

theorem within_iter (p : Page) : p.iter.Within :=
  Nat.le_of_eq p.count_eq_length_toList

theorem rest_iter (p : Page) : p.iter.rest = p.toList := by
  show (p.toList.take p.count).drop 0 = p.toList
  rw [count_eq_length_toList, List.take_length, List.drop_zero]

/-! ## Showing the entries to a visitor -/

variable {α : Type} {visitor : α → Nat → Entry → α × Bool}

/-- The visitor accepts these entries under these numbers, one after the other,
and goes from the first state to the second. -/
inductive Accepts (visitor : α → Nat → Entry → α × Bool) : α → List (Entry × Nat) → α → Prop
  | nothing (s : α) : Accepts visitor s [] s
  | entry {s s₁ s₂ : α} {e : Entry} {i : Nat} {shown : List (Entry × Nat)}
      (accepted : visitor s i e = (s₁, true)) (rest : Accepts visitor s₁ shown s₂) :
      Accepts visitor s ((e, i) :: shown) s₂

theorem visitFrom_eq_true_iff {s t : α} {i : Nat} {es : List Entry} :
    visitFrom visitor s i es = (t, true) ↔ Accepts visitor s (es.zipIdx i) t := by
  induction es generalizing s i with
  | nil =>
      constructor
      · intro h
        cases h
        exact .nothing _
      · intro h
        cases h
        rfl
  | cons e es ih =>
      rw [visitFrom, List.zipIdx_cons]
      constructor
      · intro h
        split at h
        · next s₁ hcall => exact .entry hcall (ih.mp h)
        · cases h
      · intro h
        cases h with
        | entry hcall hrest =>
            rw [hcall]
            exact ih.mpr hrest

theorem visitFrom_eq_false_iff {s t : α} {i : Nat} {es : List Entry} :
    visitFrom visitor s i es = (t, false) ↔ ∃ k e s₁, es[k]? = some e ∧
      Accepts visitor s ((es.zipIdx i).take k) s₁ ∧ visitor s₁ (i + k) e = (t, false) := by
  induction es generalizing s i with
  | nil =>
      constructor
      · intro h
        cases h
      · rintro ⟨k, e, s₁, hget, -⟩
        cases hget
  | cons e es ih =>
      rw [visitFrom, List.zipIdx_cons]
      constructor
      · intro h
        split at h
        · next s₁ hcall =>
            obtain ⟨k, e', s₂, hget, haccepts, hdeclines⟩ := ih.mp h
            refine ⟨k + 1, e', s₂, hget, .entry hcall haccepts, ?_⟩
            rw [← hdeclines, Nat.add_right_comm i 1 k, Nat.add_assoc]
        · next s₁ hcall =>
            cases h
            exact ⟨0, e, s, rfl, .nothing s, hcall⟩
      · rintro ⟨k, e', s₂, hget, haccepts, hdeclines⟩
        cases k with
        | zero =>
            cases hget
            cases haccepts
            rw [Nat.add_zero] at hdeclines
            rw [hdeclines]
        | succ k =>
            cases haccepts with
            | entry hcall hrest =>
                rw [hcall]
                refine ih.mpr ⟨k, e', s₂, hget, hrest, ?_⟩
                rw [← hdeclines, Nat.add_right_comm i 1 k, Nat.add_assoc]

/-! ## What a page built by appending reads as -/

/-- A page to which entries were appended, read in every way. Each slot lies
inside the arena, and the page counts the entries and lists them by index, by
keys, by values, from the front and from the back, in order and with nothing
added. A visitor is shown them under the numbers from zero on, each with what it
made of those before. It is shown all exactly if it accepts all, and then the
answer is yes; otherwise it is shown all up to the first that it declines, and
the answer is no. -/
theorem appendAll_reads (size : UInt64) (entries : List Entry) :
    (∀ t ∈ ((ofSize size).appendAll entries).slots.toList,
      t.stop ≤ ((ofSize size).appendAll entries).arena.size) ∧
    ((ofSize size).appendAll entries).count = entries.length ∧
    (∀ index, ((ofSize size).appendAll entries).get? index = entries[index]?) ∧
    ((ofSize size).appendAll entries).keys = entries.map Entry.key ∧
    ((ofSize size).appendAll entries).values = entries.map Entry.value ∧
    ((ofSize size).appendAll entries).toList = entries ∧
    ((ofSize size).appendAll entries).iter.collect .forward = entries ∧
    ((ofSize size).appendAll entries).iter.collect .backward = entries.reverse ∧
    ∀ (α : Type) (visitor : α → Nat → Entry → α × Bool) (first last : α),
      (((ofSize size).appendAll entries).visit visitor first = (last, true) ↔
        Accepts visitor first entries.zipIdx last) ∧
      (((ofSize size).appendAll entries).visit visitor first = (last, false) ↔
        ∃ k e before, entries[k]? = some e ∧
          Accepts visitor first (entries.zipIdx.take k) before ∧
          visitor before k e = (last, false)) := by
  have hwhole : (ofSize size).Whole := whole_of_slots_eq rfl
  have hlist : ((ofSize size).appendAll entries).toList = entries := by
    rw [toList_appendAll hwhole, toList_of_slots_eq rfl, List.nil_append]
  have hrest := rest_iter ((ofSize size).appendAll entries)
  rw [hlist] at hrest
  refine ⟨hwhole.appendAll entries, ?_, ?_, ?_, ?_, hlist, ?_, ?_, ?_⟩
  · rw [count_eq_length_toList, hlist]
  · intro index
    rw [get?_eq, hlist]
  · rw [keys_eq, hlist]
  · rw [values_eq, hlist]
  · exact Iter.collect_forward (within_iter _) hrest
  · exact Iter.collect_backward (within_iter _) (by rw [hrest, List.reverse_reverse])
  · intro α visitor first last
    rw [visit, hlist, visitFrom_eq_true_iff, visitFrom_eq_false_iff]
    simp only [Nat.zero_add, and_self]

/-- A visitor that notes what it is shown and declines a key without bytes, on a
page where that is the second of three. -/
theorem appendAll_reads_up_to_declined :
    (∀ t ∈ ((ofSize 1).appendAll [⟨[1], []⟩, ⟨[], [2]⟩, ⟨[3], [3]⟩]).slots.toList,
      t.stop ≤ ((ofSize 1).appendAll [⟨[1], []⟩, ⟨[], [2]⟩, ⟨[3], [3]⟩]).arena.size) ∧
    ((ofSize 1).appendAll [⟨[1], []⟩, ⟨[], [2]⟩, ⟨[3], [3]⟩]).visit
      (fun (shown : List (Nat × Entry)) i e => (shown ++ [(i, e)], !e.key.isEmpty)) [] =
      ([(0, ⟨[1], []⟩), (1, ⟨[], [2]⟩)], false) := by
  have hreads := appendAll_reads 1 [⟨[1], []⟩, ⟨[], [2]⟩, ⟨[3], [3]⟩]
  refine ⟨hreads.1, ?_⟩
  obtain ⟨-, -, -, -, -, -, -, -, hvisit⟩ := hreads
  exact (hvisit _ _ _ _).2.mpr
    ⟨1, ⟨[], [2]⟩, [(0, ⟨[1], []⟩)], rfl, .entry rfl (.nothing _), rfl⟩

end PagedScan.Page
