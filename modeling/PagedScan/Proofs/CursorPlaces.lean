import Mathlib.Order.Bounds.Basic
import PagedScan.Proofs.StoreWalk

/-!
# A cursor of a store as a place among its entries

A cursor of a store keeps no number. It keeps an entry, and each move looks up
another one by key. All the same it behaves as if it kept the place of its entry
among the entries in ascending order, and nothing else: a step goes to the place
next to it, and a seek to the least or to the greatest place of those it asks for.

Each lookup finds the first entry of a walk that satisfies a condition, so it finds
the least place whose entry does, or the greatest if the walk goes down. That is
`exists_stands_first`, and a seek is that and no more. For a step the places asked
for are those with a later key, and here the order of the store comes in: as keys
ascend strictly, a later key is the same as a later place.
-/

namespace PagedScan

/-! ## Moves -/

namespace Cursor

/-- What a cursor may be told to do. -/
inductive Move where
  | edge (d : Direction)
  | seek (d : Direction) (key : Bytes)
  | step (d : Direction)

variable {σ : Type} [Cursor σ]

/-- What a move comes to. -/
def Move.run (logging : Bool) : Move → σ → Outcome Misuse σ Unit
  | edge d, c => .ok (Cursor.seekEdge d c) ()
  | seek d key, c => .ok (Cursor.seek d key c) ()
  | step d, c => Cursor.step logging d c

/-- The cursor after these moves, those among them that were misuse included. -/
def after (logging : Bool) (moves : List Move) (c : σ) : σ :=
  moves.foldl (fun c move => (move.run logging c).state) c

end Cursor

/-! ## Places -/

/-- The place that a walk meets first of these, or none if there are none. -/
def Direction.Meets : Direction → Set Nat → Option Nat → Prop
  | _, places, none => places = ∅
  | .forward, places, some place => IsLeast places place
  | .backward, places, some place => IsGreatest places place

/-- The places of the entries whose keys satisfy a condition. -/
def Store.places (s : Store) (condition : Bytes → Prop) : Set Nat :=
  {place | ∃ e, s.entries[place]? = some e ∧ condition e.key}

/-- Where a move leads that is made at a place of the store or at none, and what it
answers. -/
inductive Leads (s : Store) :
    Cursor.Move → Option Nat → Except Misuse Unit → Option Nat → Prop where
  | edge {d : Direction} {place next : Option Nat} :
      d.Meets {place | place < s.count} next → Leads s (.edge d) place (.ok ()) next
  | seekForward {key : Bytes} {place next : Option Nat} :
      Direction.forward.Meets (s.places (key ≤ ·)) next →
        Leads s (.seek .forward key) place (.ok ()) next
  | seekBackward {key : Bytes} {place next : Option Nat} :
      Direction.backward.Meets (s.places (· ≤ key)) next →
        Leads s (.seek .backward key) place (.ok ()) next
  | stepForward {place : Nat} :
      place + 1 < s.count → Leads s (.step .forward) (some place) (.ok ()) (some (place + 1))
  | stepPastLast {place : Nat} :
      place + 1 = s.count → Leads s (.step .forward) (some place) (.ok ()) none
  | stepBackward {place : Nat} :
      Leads s (.step .backward) (some (place + 1)) (.ok ()) (some place)
  | stepPastFirst : Leads s (.step .backward) (some 0) (.ok ()) none
  | stepNowhere {d : Direction} : Leads s (.step d) none (.error .noEntry) none

namespace Store

variable {s : Store}

theorem lt_count_of_getElem? {place : Nat} {e : Entry} (h : s.entries[place]? = some e) :
    place < s.count :=
  (List.getElem?_eq_some_iff.mp h).1

/-- Later places have later keys, and only they do. -/
theorem key_lt_iff {i k : Nat} {a b : Entry} (ha : s.entries[i]? = some a)
    (hb : s.entries[k]? = some b) : a.key < b.key ↔ i < k := by
  obtain ⟨hi, rfl⟩ := List.getElem?_eq_some_iff.mp ha
  obtain ⟨hk, rfl⟩ := List.getElem?_eq_some_iff.mp hb
  have hup := List.pairwise_iff_getElem.mp s.ascending
  constructor
  · intro hlt
    by_contra hle
    rcases Nat.lt_or_eq_of_le (Nat.not_lt.mp hle) with hki | rfl
    · exact List.lt_asymm hlt (hup k i hk hi hki)
    · exact List.lt_irrefl _ hlt
  · exact hup i k hi hk

theorem places_eq_lt : s.places (fun _ => True) = {place | place < s.count} := by
  ext place
  constructor
  · rintro ⟨e, he, -⟩
    exact lt_count_of_getElem? he
  · intro h
    exact ⟨_, List.getElem?_eq_getElem h, trivial⟩

/-- The places of the later keys are the later places. -/
theorem places_gt {i : Nat} {e : Entry} (he : s.entries[i]? = some e) :
    s.places (e.key < ·) = {k | i < k ∧ k < s.count} := by
  ext k
  constructor
  · rintro ⟨x, hx, hlt⟩
    exact ⟨(key_lt_iff he hx).mp hlt, lt_count_of_getElem? hx⟩
  · rintro ⟨hik, hk⟩
    have hx := List.getElem?_eq_getElem hk
    exact ⟨_, hx, (key_lt_iff he hx).mpr hik⟩

theorem places_lt {i : Nat} {e : Entry} (he : s.entries[i]? = some e) :
    s.places (· < e.key) = {k | k < i} := by
  ext k
  constructor
  · rintro ⟨x, hx, hlt⟩
    exact (key_lt_iff hx he).mp hlt
  · intro hki
    have hx := List.getElem?_eq_getElem (Nat.lt_trans hki (lt_count_of_getElem? he))
    exact ⟨_, hx, (key_lt_iff hx he).mpr hki⟩

end Store

namespace StoreCursor

variable {s : Store} {d : Direction}

/-- The cursor is valid and shows the entry at this place, or it is at none and
shows nothing. -/
def Stands (c : StoreCursor s) : Option Nat → Prop
  | some place => ∃ e, s.entries[place]? = some e ∧ Cursor.valid c = true ∧
      Cursor.key c = .ok e.key ∧ Cursor.value c = .ok e.value
  | none => Cursor.valid c = false ∧ Cursor.key c = .error .noEntry ∧
      Cursor.value c = .error .noEntry

theorem stands_of_current {c : StoreCursor s} {place : Nat} {e : Entry}
    (h : s.entries[place]? = some e) (hc : c.current = some e) : c.Stands (some place) :=
  ⟨e, h, valid_of_current hc, key_of_current hc, value_of_current hc⟩

theorem stands_none {c : StoreCursor s} (hc : c.current = none) : c.Stands none := by
  have hentry : c.entry = .error .noEntry := by rw [entry, hc]
  refine ⟨?_, ?_, ?_⟩
  · show c.current.isSome = false
    rw [hc]
    rfl
  · show c.entry.map Entry.key = .error .noEntry
    rw [hentry]
    rfl
  · show c.entry.map Entry.value = .error .noEntry
    rw [hentry]
    rfl

theorem current_of_stands {c : StoreCursor s} {place : Option Nat} (h : c.Stands place) :
    c.current = place.bind (s.entries[·]?) := by
  cases place with
  | none =>
      obtain ⟨hvalid, -, -⟩ := h
      exact Option.not_isSome_iff_eq_none.mp (Bool.eq_false_iff.mp hvalid)
  | some place =>
      obtain ⟨e, he, hvalid, hkey, hvalue⟩ := h
      rw [current_of_shown hvalid hkey hvalue, Option.bind_some, he]

/-- A cursor is at one place at most. -/
theorem Stands.unique {c : StoreCursor s} {place place' : Option Nat} (h : c.Stands place)
    (h' : c.Stands place') : place = place' := by
  have hsame := (current_of_stands h).symm.trans (current_of_stands h')
  match place, place' with
  | none, none => rfl
  | none, some k =>
      obtain ⟨x, hx, -⟩ := h'
      rw [Option.bind_some, hx] at hsame
      cases hsame
  | some i, none =>
      obtain ⟨e, he, -⟩ := h
      rw [Option.bind_some, he] at hsame
      cases hsame
  | some i, some k =>
      obtain ⟨e, he, -⟩ := h
      obtain ⟨x, hx, -⟩ := h'
      rw [Option.bind_some, Option.bind_some, he, hx] at hsame
      cases hsame
      -- One key cannot be at two places, because neither could be the later one.
      have hik : ¬ i < k := fun hlt => List.lt_irrefl _ ((Store.key_lt_iff he hx).mpr hlt)
      have hki : ¬ k < i := fun hlt => List.lt_irrefl _ ((Store.key_lt_iff hx he).mpr hlt)
      rw [show i = k by omega]

/-! ## One lookup -/

section Split

variable {front rest : List Entry} {e x : Entry} {k : Nat}

theorem mem_front_of_getElem? (h : (front ++ e :: rest)[k]? = some x) (hk : k < front.length) :
    x ∈ front := by
  rw [List.getElem?_append_left hk] at h
  exact List.mem_of_getElem? h

theorem mem_rest_of_getElem? (h : (front ++ e :: rest)[k]? = some x) (hk : front.length < k) :
    x ∈ rest := by
  have hlength : (front ++ [e]).length ≤ k := by rw [List.length_append]; exact hk
  rw [List.append_cons, List.getElem?_append_right hlength] at h
  exact List.mem_of_getElem? h

theorem getElem?_split : (front ++ e :: rest)[front.length]? = some e := by
  rw [List.getElem?_append_right (Nat.le_refl _), Nat.sub_self]
  rfl

end Split

/-- The first entry of a walk that satisfies a condition is at the place that the
walk meets first of those whose entries do. -/
theorem exists_stands_first (condition : Entry → Bool) :
    ∃ place, d.Meets {k | ∃ e, s.entries[k]? = some e ∧ condition e = true} place ∧
      (first s d condition).Stands place := by
  cases hfound : (s.walk d).find? condition with
  | none =>
      refine ⟨none, ?_, stands_none hfound⟩
      rw [Direction.Meets, Set.eq_empty_iff_forall_notMem]
      rintro k ⟨e, he, hcondition⟩
      have hmem : e ∈ s.walk d := Store.mem_walk.mpr (List.mem_of_getElem? he)
      exact List.find?_eq_none.mp hfound e hmem hcondition
  | some e =>
      obtain ⟨hcondition, front, rest, hsplit, hfront⟩ := List.find?_eq_some_iff_append.mp hfound
      have hnot : ∀ x ∈ front, ¬ condition x = true := fun x hx => by simpa using hfront x hx
      cases d with
      | forward =>
          have hentries : s.entries = front ++ e :: rest := hsplit
          have he : s.entries[front.length]? = some e := by rw [hentries, getElem?_split]
          refine ⟨some front.length, ⟨⟨e, he, hcondition⟩, ?_⟩, stands_of_current he hfound⟩
          rintro k ⟨x, hx, hcondition⟩
          by_contra hk
          rw [hentries] at hx
          exact hnot x (mem_front_of_getElem? hx (Nat.not_le.mp hk)) hcondition
      | backward =>
          have hentries : s.entries = rest.reverse ++ e :: front.reverse := by
            rw [← s.entries.reverse_reverse, show s.entries.reverse = front ++ e :: rest from hsplit,
              List.reverse_append, List.reverse_cons, List.append_assoc, List.singleton_append]
          have he : s.entries[rest.reverse.length]? = some e := by rw [hentries, getElem?_split]
          refine ⟨some rest.reverse.length, ⟨⟨e, he, hcondition⟩, ?_⟩,
            stands_of_current he hfound⟩
          rintro k ⟨x, hx, hcondition⟩
          by_contra hk
          rw [hentries] at hx
          have hmem := mem_rest_of_getElem? hx (Nat.not_le.mp hk)
          exact hnot x (List.mem_reverse.mp hmem) hcondition

/-- A lookup by key stands at the place met first of those whose keys it asks for. -/
theorem exists_stands_of_places (d : Direction) (condition : Entry → Bool)
    (asked : Bytes → Prop) (h : ∀ e, condition e = true ↔ asked e.key) :
    ∃ place, d.Meets (s.places asked) place ∧ (first s d condition).Stands place := by
  obtain ⟨place, hmeets, hstands⟩ := exists_stands_first (s := s) (d := d) condition
  refine ⟨place, ?_, hstands⟩
  have hplaces : s.places asked = {k | ∃ e, s.entries[k]? = some e ∧ condition e = true} := by
    simp only [Store.places, h]
  rw [hplaces]
  exact hmeets

/-! ## One move -/

theorem leads_edge (logging : Bool) (c : StoreCursor s) (place : Option Nat) :
    ∃ next, Leads s (.edge d) place ((Cursor.Move.edge d).run logging c).answer next ∧
      ((Cursor.Move.edge d).run logging c).state.Stands next := by
  obtain ⟨next, hmeets, hstands⟩ := exists_stands_of_places (s := s) d (fun _ => true)
    (fun _ => True) fun _ => iff_of_true rfl trivial
  rw [Store.places_eq_lt] at hmeets
  exact ⟨next, .edge hmeets, hstands⟩

theorem leads_seek (logging : Bool) (key : Bytes) (c : StoreCursor s) (place : Option Nat) :
    ∃ next, Leads s (.seek d key) place ((Cursor.Move.seek d key).run logging c).answer next ∧
      ((Cursor.Move.seek d key).run logging c).state.Stands next := by
  cases d with
  | forward =>
      obtain ⟨next, hmeets, hstands⟩ := exists_stands_of_places (s := s) .forward
        (fun e => !Direction.forward.before e.key key) (key ≤ ·) fun e => by simp [Direction.before]
      exact ⟨next, .seekForward hmeets, hstands⟩
  | backward =>
      obtain ⟨next, hmeets, hstands⟩ := exists_stands_of_places (s := s) .backward
        (fun e => !Direction.backward.before e.key key) (· ≤ key) fun e => by simp [Direction.before]
      exact ⟨next, .seekBackward hmeets, hstands⟩

theorem leads_stepForward {place : Nat} {e : Entry} {next : Option Nat}
    (he : s.entries[place]? = some e)
    (h : Direction.forward.Meets (s.places (e.key < ·)) next) :
    Leads s (.step .forward) (some place) (.ok ()) next := by
  have hplace := Store.lt_count_of_getElem? he
  rw [Store.places_gt he] at h
  cases next with
  | none =>
      have hoff : ¬ (place < place + 1 ∧ place + 1 < s.count) :=
        Set.eq_empty_iff_forall_notMem.mp h (place + 1)
      exact .stepPastLast (by omega)
  | some next =>
      obtain ⟨⟨hlater, hnext⟩, hleast⟩ := h
      have hle : next ≤ place + 1 := hleast ⟨by omega, by omega⟩
      obtain rfl : next = place + 1 := by omega
      exact .stepForward hnext

theorem leads_stepBackward {place : Nat} {e : Entry} {next : Option Nat}
    (he : s.entries[place]? = some e)
    (h : Direction.backward.Meets (s.places (· < e.key)) next) :
    Leads s (.step .backward) (some place) (.ok ()) next := by
  rw [Store.places_lt he] at h
  cases place with
  | zero =>
      cases next with
      | none => exact .stepPastFirst
      | some next => exact absurd h.1 (Nat.not_lt_zero next)
  | succ place =>
      cases next with
      | none => exact absurd (Nat.lt_succ_self place) (Set.eq_empty_iff_forall_notMem.mp h place)
      | some next =>
          obtain ⟨hearlier, hgreatest⟩ := h
          have hle : place ≤ next := hgreatest (Nat.lt_succ_self place)
          have hlt : next < place + 1 := hearlier
          obtain rfl : next = place := by omega
          exact .stepBackward

theorem leads_step (logging : Bool) {c : StoreCursor s} {place : Option Nat}
    (h : c.Stands place) :
    ∃ next, Leads s (.step d) place ((Cursor.Move.step d).run logging c).answer next ∧
      ((Cursor.Move.step d).run logging c).state.Stands next := by
  have hcurrent := current_of_stands h
  cases place with
  | none =>
      have hrun : (Cursor.Move.step d).run logging c = .fail c .noEntry := by
        show step d c = _
        rw [step, hcurrent]
        rfl
      rw [hrun]
      exact ⟨none, .stepNowhere, h⟩
  | some place =>
      obtain ⟨e, he, -⟩ := h
      rw [Option.bind_some, he] at hcurrent
      have hrun : ((Cursor.Move.step d).run logging c).Yields (behind s d e.key) () :=
        step_of_current hcurrent
      rw [hrun.answer, hrun.state]
      cases d with
      | forward =>
          obtain ⟨next, hmeets, hstands⟩ := exists_stands_of_places (s := s) .forward
            (fun x => Direction.forward.before e.key x.key) (e.key < ·) fun x => decide_eq_true_iff
          exact ⟨next, leads_stepForward he hmeets, hstands⟩
      | backward =>
          obtain ⟨next, hmeets, hstands⟩ := exists_stands_of_places (s := s) .backward
            (fun x => Direction.backward.before e.key x.key) (· < e.key) fun x => decide_eq_true_iff
          exact ⟨next, leads_stepBackward he hmeets, hstands⟩

theorem leads_of_stands (logging : Bool) {c : StoreCursor s} {place : Option Nat}
    (h : c.Stands place) (move : Cursor.Move) :
    ∃ next, Leads s move place (move.run logging c).answer next ∧
      (move.run logging c).state.Stands next := by
  cases move with
  | edge d => exact leads_edge logging c place
  | seek d key => exact leads_seek logging key c place
  | step d => exact leads_step logging h

/-! ## Any moves in any order -/

theorem exists_stands_after (logging : Bool) {c : StoreCursor s} {place : Option Nat}
    (h : c.Stands place) (moves : List Cursor.Move) :
    ∃ place', (Cursor.after logging moves c).Stands place' := by
  induction moves generalizing c place with
  | nil => exact ⟨place, h⟩
  | cons move moves ih =>
      obtain ⟨next, -, hnext⟩ := leads_of_stands logging h move
      exact ih hnext

end StoreCursor

/-- A cursor of a store begins at no place. After any moves it is at exactly one
place of the store, or at none, and what it shows is the entry there; and from
there, every move leads to the place that `Leads` says and answers what it says. -/
theorem Store.cursor_keeps_place (s : Store) (logging : Bool) :
    s.cursor.Stands none ∧
    ∀ moves : List Cursor.Move, ∃! place,
      (Cursor.after logging moves s.cursor).Stands place ∧
      ∀ move : Cursor.Move, ∃ next,
        Leads s move place (move.run logging (Cursor.after logging moves s.cursor)).answer next ∧
        (move.run logging (Cursor.after logging moves s.cursor)).state.Stands next := by
  have hfresh : s.cursor.Stands none := StoreCursor.stands_none rfl
  refine ⟨hfresh, fun moves => ?_⟩
  obtain ⟨place, hplace⟩ := StoreCursor.exists_stands_after logging hfresh moves
  refine ⟨place, ⟨hplace, StoreCursor.leads_of_stands logging hplace⟩, ?_⟩
  rintro place' ⟨hplace', -⟩
  exact hplace'.unique hplace

end PagedScan
