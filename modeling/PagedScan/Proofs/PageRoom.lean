import Mathlib.Algebra.Group.Nat.Defs
import Mathlib.Order.Bounds.Basic
import PagedScan.Proofs.SteadyScan

/-!
# How much room a page has

A page starts with the room it is asked for and doubles it when an entry finds it used up,
up to the largest number there is. So its room is always one of the numbers
`roomAfter start k`, and the one with the least `k` that its entries fit in: it grows only
when it is full, and to grow once more is then both needed and enough. That is what an
append keeps, and it fails in one place only, a page that is full at the largest number
and gets one entry more. A fetch never makes such a page, because it passes no entry of
the store twice and a store does not hold so many.

The last point is a matter of counting exactly. A failing cursor takes one more entry than
it has steps left, and its own bound on the steps ahead of it is one too large for a store
that is as big as can be. So what it passes is compared, not counted: it is passed by the
cursor inside as well.
-/

namespace PagedScan

/-! ## Room by doubling -/

namespace Page

/-- The room of a page that started with some room and has grown `k` times. -/
def roomAfter (start k : Nat) : Nat :=
  min maxCapacity (start * 2 ^ k)

/-- The page has grown as often as its entries need, and no more. -/
def GrownFrom (start : Nat) (p : Page) : Prop :=
  ∃ k, IsLeast {k | p.count ≤ roomAfter start k} k ∧ p.capacity = roomAfter start k

theorem roomAfter_zero {start : Nat} (h : start ≤ maxCapacity) : roomAfter start 0 = start := by
  rw [roomAfter, Nat.pow_zero, Nat.mul_one, Nat.min_eq_right h]

theorem roomAfter_succ (start k : Nat) :
    roomAfter start (k + 1) = min (2 * roomAfter start k) maxCapacity := by
  rw [roomAfter, roomAfter, Nat.pow_succ, ← Nat.mul_assoc]
  omega

/-- Some room is left to double, and doubling makes more of it as long as there is more. -/
theorem lt_roomAfter_succ {start k : Nat} (hstart : 0 < start)
    (h : roomAfter start k < maxCapacity) : roomAfter start k < roomAfter start (k + 1) := by
  have hpos : 0 < start * 2 ^ k := Nat.mul_pos hstart (Nat.two_pow_pos k)
  rw [roomAfter_succ]
  rw [roomAfter] at h ⊢
  omega

theorem GrownFrom.of_empty {start : Nat} {p : Page} (h : start ≤ maxCapacity)
    (hcount : p.count = 0) (hroom : p.capacity = start) : p.GrownFrom start := by
  refine ⟨0, ⟨?_, fun k _ => Nat.zero_le k⟩, ?_⟩
  · show p.count ≤ _
    omega
  · rw [roomAfter_zero h, hroom]

theorem GrownFrom.append {start : Nat} {p : Page} (hstart : 0 < start) (h : p.GrownFrom start)
    (hcount : p.count < maxCapacity) (e : Entry) : (p.append e).GrownFrom start := by
  obtain ⟨k, ⟨hfits, hleast⟩, hroom⟩ := h
  have hfits : p.count ≤ roomAfter start k := hfits
  have hshort : ∀ j, j < k → roomAfter start j < p.count := fun j hj =>
    Nat.not_le.mp fun hle => absurd (hleast hle) (Nat.not_le.mpr hj)
  have hcapacity : (p.append e).capacity = p.grown := rfl
  simp only [GrownFrom, count_append, hcapacity, grown]
  by_cases hfull : p.count = p.capacity
  · rw [if_pos hfull]
    have hmore := lt_roomAfter_succ (k := k) hstart (by omega)
    refine ⟨k + 1, ⟨?_, fun j hj => ?_⟩, ?_⟩
    · show p.count + 1 ≤ _
      omega
    · -- After `k` times it was full, and before that it was too small already.
      have hj : p.count + 1 ≤ roomAfter start j := hj
      by_contra hlt
      rcases Nat.lt_or_eq_of_le (Nat.le_of_lt_succ (Nat.not_le.mp hlt)) with hlt | rfl
      · have := hshort j hlt
        omega
      · omega
    · rw [roomAfter_succ, hroom]
  · rw [if_neg hfull]
    refine ⟨k, ⟨?_, fun j hj => ?_⟩, hroom⟩
    · show p.count + 1 ≤ _
      omega
    · have hj : p.count + 1 ≤ roomAfter start j := hj
      by_contra hlt
      have := hshort j (Nat.not_le.mp hlt)
      omega

theorem GrownFrom.appendAll {start : Nat} {p : Page} (hstart : 0 < start)
    (h : p.GrownFrom start) (entries : List Entry)
    (hcount : p.count + entries.length ≤ maxCapacity) :
    (p.appendAll entries).GrownFrom start := by
  induction entries generalizing p with
  | nil => exact h
  | cons e entries ih =>
      rw [List.length_cons] at hcount
      refine ih (h.append hstart (by omega) e) ?_
      rw [count_append]
      omega

theorem GrownFrom.count_le {start : Nat} {p : Page} (h : p.GrownFrom start) :
    p.count ≤ p.capacity := by
  obtain ⟨k, ⟨hfits, -⟩, hroom⟩ := h
  rw [hroom]
  exact hfits

/-- A page that needs no more room than it started with has that. -/
theorem GrownFrom.capacity_eq {start : Nat} {p : Page} (h : p.GrownFrom start)
    (hstart : start ≤ maxCapacity) (hcount : p.count ≤ start) : p.capacity = start := by
  obtain ⟨k, ⟨-, hleast⟩, hroom⟩ := h
  have hzero : k ≤ 0 := hleast (show p.count ≤ _ by rw [roomAfter_zero hstart]; exact hcount)
  rw [hroom, Nat.le_zero.mp hzero, roomAfter_zero hstart]

theorem roomFor_le (size : UInt64) : roomFor size ≤ maxCapacity := by
  have hlt := size.toNat_lt
  rw [roomFor]
  split
  · decide
  · exact Nat.le_pred_of_lt hlt

theorem roomFor_pos (size : UInt64) : 0 < roomFor size := by
  rw [roomFor]
  split
  · decide
  · next hne =>
      refine Nat.pos_of_ne_zero fun hzero => hne ?_
      exact UInt64.toNat_inj.mp hzero

end Page

/-! ## What a fetch starts with -/

/-- The room that a limit and a page size ask for: that of the page size, unless the limit
is positive and less. -/
def askedRoom (limit : Int64) (pageSize : UInt64) : Nat :=
  if 0 < limit.toInt ∧ limit.toInt < Page.roomFor pageSize then limit.toInt.toNat
  else Page.roomFor pageSize

theorem startingRoom_eq (limit : Int64) (pageSize : UInt64) :
    startingRoom limit pageSize = askedRoom limit pageSize := by
  rw [startingRoom, askedRoom, limit?]
  by_cases hpos : 0 < limit.toInt
  · rw [if_pos hpos]
    dsimp only
    split
    · omega
    · omega
  · rw [if_neg hpos, if_neg fun h => hpos h.1]

theorem askedRoom_pos (limit : Int64) (pageSize : UInt64) : 0 < askedRoom limit pageSize := by
  have hpos := Page.roomFor_pos pageSize
  rw [askedRoom]
  split
  · omega
  · exact hpos

theorem askedRoom_le (limit : Int64) (pageSize : UInt64) :
    askedRoom limit pageSize ≤ Page.maxCapacity := by
  have hle := Page.roomFor_le pageSize
  rw [askedRoom]
  split
  · omega
  · exact hle

theorem askedRoom_of_le {limit : Int64} {pageSize : UInt64} (hpos : 0 < limit.toInt)
    (hle : limit.toInt ≤ Page.roomFor pageSize) :
    askedRoom limit pageSize = limit.toInt.toNat := by
  rw [askedRoom]
  split
  · rfl
  · omega

theorem grownFrom_pageOf (limit : Int64) (pageSize : UInt64) {taken : List Entry}
    (h : taken.length ≤ Page.maxCapacity) :
    (pageOf limit pageSize taken).GrownFrom (askedRoom limit pageSize) := by
  have hstart : (startingPage limit pageSize).GrownFrom (askedRoom limit pageSize) :=
    .of_empty (askedRoom_le _ _) rfl (startingRoom_eq _ _)
  refine hstart.appendAll (askedRoom_pos _ _) taken ?_
  rw [show (startingPage limit pageSize).count = 0 from rfl, Nat.zero_add]
  exact h

/-! ## What a fetch can pass -/

theorem StoreCursor.length_ahead_le {s : Store} (d : Direction) (c : StoreCursor s) :
    (c.ahead d).length ≤ s.count := by
  have hwalk : (s.walk d).length = s.count := by
    cases d with
    | forward => rfl
    | backward => exact List.length_reverse
  cases hcurrent : c.current with
  | none =>
      rw [ahead, hcurrent]
      exact Nat.zero_le _
  | some e =>
      rw [← ahead_notBefore_of_current hcurrent, ahead_notBefore, ← hwalk]
      exact List.length_filter_le _ _

/-- What a cursor of a store passes, it had ahead. -/
theorem StoreCursor.isPrefix_ahead {s : Store} {logging : Bool} {d : Direction}
    {c c' : StoreCursor s} {es : List Entry} (h : Passes logging d c es c') :
    es <+: c.ahead d := by
  induction h with
  | nothing c => exact List.nil_prefix
  | @entry c c₁ c₂ e es hvalid hkey hvalue hstep _ ih =>
      have hcurrent := current_of_shown hvalid hkey hvalue
      have hbehind : (Cursor.step logging d c).Yields (behind s d e.key) () :=
        step_of_current hcurrent
      have hmoved : c₁ = behind s d e.key := by
        rw [← hstep.state, hbehind.state]
      rw [hmoved, ahead_behind] at ih
      rw [ahead, hcurrent]
      exact List.cons_prefix_cons.mpr ⟨rfl, ih⟩

/-- What a failing cursor passes, the cursor inside passes as well, the entry in front of
the fault included. -/
theorem FailingCursor.exists_passes_inner {σ : Type} [Cursor σ] [SoundCursor σ] {logging : Bool}
    {d : Direction} {c c' : FailingCursor σ} {es : List Entry} (h : Passes logging d c es c') :
    ∃ inner, Passes logging d c.inner es inner := by
  induction h with
  | nothing c => exact ⟨c.inner, .nothing c.inner⟩
  | @entry c c₁ c₂ e es hvalid hkey hvalue hstep hrest ih =>
      obtain ⟨inner, stepsLeft, failure⟩ := c
      obtain ⟨rfl, hinner⟩ := of_valid hvalid
      obtain ⟨inner₁, hmoves⟩ := SoundCursor.exists_step d hinner
      by_cases hleft : stepsLeft = some 0
      · -- It has failed, and a failed cursor passes nothing more.
        subst hleft
        have hfailed : c₁ = ⟨inner, none, some injected⟩ := by
          rw [← hstep.state]
          exact (step_fails (c := inner) hkey).state
        subst hfailed
        cases hrest with
        | nothing => exact ⟨inner₁, .entry hinner hkey hvalue (hmoves logging) (.nothing _)⟩
        | entry hvalid' => cases hvalid'
      · obtain ⟨inner', hpasses⟩ := ih
        have hpos : ∀ n, stepsLeft = some n → 0 < n := by
          rintro n rfl
          exact Nat.pos_of_ne_zero fun hzero => hleft (congrArg some hzero)
        have hcounted : c₁.inner = inner₁ := by
          rw [← hstep.state, (step_counted hpos (hmoves logging)).state]
        rw [hcounted] at hpasses
        exact ⟨inner', .entry hinner hkey hvalue (hmoves logging) hpasses⟩

/-! ## The room of a fetched page -/

/-- The page has the room that its limit and page size come to: with `start` the room
asked for, `start * 2 ^ k`, or the largest room if that is less, for the least `k` with
which its entries fit in. -/
structure Page.KeepsRoom (limit : Int64) (pageSize : UInt64) (p : Page) : Prop where
  grownFrom : p.GrownFrom (askedRoom limit pageSize)
  count_le : p.count ≤ p.capacity
  count_le_limit : 0 < limit.toInt → (p.count : Int) ≤ limit.toInt
  capacity_eq : 0 < limit.toInt → limit.toInt ≤ Page.roomFor pageSize →
    p.capacity = askedRoom limit pageSize

theorem keepsRoom_pageOf {limit : Int64} {pageSize : UInt64} {taken : List Entry}
    (hlength : taken.length ≤ Page.maxCapacity)
    (hlimit : ∀ m, limit? limit = some m → taken.length ≤ m) :
    (pageOf limit pageSize taken).KeepsRoom limit pageSize := by
  have hgrown := grownFrom_pageOf limit pageSize hlength
  have hcount : 0 < limit.toInt → taken.length ≤ limit.toInt.toNat :=
    fun hpos => hlimit _ (if_pos hpos)
  refine ⟨hgrown, hgrown.count_le, fun hpos => ?_, fun hpos hle => ?_⟩
  · have := hcount hpos
    rw [count_pageOf]
    omega
  · refine hgrown.capacity_eq (askedRoom_le _ _) ?_
    rw [count_pageOf, askedRoom_of_le hpos hle]
    exact hcount hpos

/-- Every fetch with a cursor of a store of fewer than `2 ^ 64` entries, or with a failing
cursor around one, whatever state it is in, comes to a page with the room that its limit
and page size say. -/
theorem fetch_keepsRoom (s : Store) (hs : s.count < 2 ^ 64) (logging : Bool) (d : Direction)
    (limit : Int64) (f : Filter) (pageSize : UInt64) :
    (∀ c : StoreCursor s, ∃ c' p, (fetch logging d limit f pageSize c).Yields c' p ∧
      p.KeepsRoom limit pageSize) ∧
    ∀ c : FailingCursor (StoreCursor s), ∃ c' p,
      (fetch logging d limit f pageSize c).Yields c' p ∧ p.KeepsRoom limit pageSize := by
  have hroom : ∀ (c c' : StoreCursor s) (es : List Entry), Passes logging d c es c' →
      es.length ≤ Page.maxCapacity := fun c c' es hpasses =>
    calc es.length ≤ (c.ahead d).length := (StoreCursor.isPrefix_ahead hpasses).length_le
      _ ≤ s.count := c.length_ahead_le d
      _ ≤ Page.maxCapacity := Nat.le_pred_of_lt hs
  refine ⟨fun c => ?_, fun c => ?_⟩
  · obtain ⟨c', p, hfetch⟩ := steady_fetch d limit f pageSize c
    obtain ⟨es, hpasses, rfl, hlimit⟩ := exists_passes_of_fetch (hfetch logging)
    exact ⟨c', _, hfetch logging, keepsRoom_pageOf (hroom _ _ es hpasses) hlimit⟩
  · obtain ⟨c', p, hfetch⟩ := steady_fetch d limit f pageSize c
    obtain ⟨es, hpasses, rfl, hlimit⟩ := exists_passes_of_fetch (hfetch logging)
    obtain ⟨inner, hinner⟩ := FailingCursor.exists_passes_inner hpasses
    exact ⟨c', _, hfetch logging, keepsRoom_pageOf (hroom _ _ es hinner) hlimit⟩

/-- Three entries and a page size of one: the page has grown twice. With a limit of three
and a page size of four it has not grown. -/
theorem fetch_keepsRoom_three_entries :
    (Store.ofNames ["a", "b", "c"]).count < 2 ^ 64 ∧
    (∃ c' p, (fetch false .forward 0 {} 1
        (StoreCursor.first (.ofNames ["a", "b", "c"]) .forward fun _ => true)).Yields c' p ∧
      p.KeepsRoom 0 1 ∧ p.count = 3 ∧ p.capacity = 4) ∧
    ∃ c' p, (fetch false .forward 3 {} 4 (FailingCursor.ofCursor
        (StoreCursor.first (.ofNames ["a", "b", "c"]) .forward fun _ => true) 1)).Yields c' p ∧
      p.KeepsRoom 3 4 ∧ p.capacity = 3 := by
  have hs : (Store.ofNames ["a", "b", "c"]).count < 2 ^ 64 := by decide
  refine ⟨hs, ?_, ?_⟩
  · obtain ⟨c', p, hfetch, hkeeps⟩ :=
      (fetch_keepsRoom _ hs false .forward 0 {} 1).1 (.first _ .forward fun _ => true)
    obtain ⟨c₁, -, hfetch₁⟩ := StoreCursor.exists_fetch false 0 {} 1
      (.first (.ofNames ["a", "b", "c"]) .forward fun _ => true) (d := .forward)
    have hp := hfetch.answer.symm.trans hfetch₁.answer
    cases hp
    exact ⟨c', _, hfetch, hkeeps, by decide, by decide⟩
  · obtain ⟨c', p, hfetch, hkeeps⟩ :=
      (fetch_keepsRoom _ hs false .forward 3 {} 4).2
        (.ofCursor (.first _ .forward fun _ => true) 1)
    exact ⟨c', p, hfetch, hkeeps, hkeeps.capacity_eq (by decide) (by decide)⟩

end PagedScan
