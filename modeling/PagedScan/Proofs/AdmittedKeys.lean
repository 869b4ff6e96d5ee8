import PagedScan.Proofs.WholeRange

/-!
# The keys a filter admits lie together

A scan asks its filter about one key after the other and ends at the first one refused. It
never looks further, so there had better be nothing for it there. The two axes of a filter
see to that in different ways. A stop that has been passed is behind the walk for good, and
this needs no more than that keys are ordered. The keys with one stem are an interval too,
but a walk may still be in front of it, and then a key is refused now and others are admitted
later.

So what holds of the filter as a whole is that it refuses nothing between two keys that it
admits. For a scan this is enough if it starts on an admitted key, or where the stop has been
passed already: then the first key refused is as good a place to end as any later one, and
`exists_fetch_admitted` says so of a fetch with any limit.
-/

namespace PagedScan

namespace Filter

variable {f : Filter} {d : Direction} {a b c : Bytes}

theorem inRange_iff : f.inRange d a = true ↔ (f.stop ≠ [] → d.before a f.stop = true) := by
  simp only [inRange, Bool.or_eq_true, List.isEmpty_iff, ne_eq, Decidable.imp_iff_not_or,
    Decidable.not_not]

theorem hasStem_iff : f.hasStem a = true ↔ f.stem <+: a := by
  simp only [hasStem, Bytes.startsWith, Bool.or_eq_true, List.isEmpty_iff,
    List.isPrefixOf_iff_prefix]
  exact or_iff_right_of_imp fun h => h ▸ List.nil_prefix

/-- What lies in front of a key in range is in range. -/
theorem inRange_of_not_before (hba : d.before b a = false) (hb : f.inRange d b = true) :
    f.inRange d a = true := by
  rw [inRange_iff] at hb ⊢
  intro hstop
  cases ha : d.before a f.stop with
  | true => rfl
  | false =>
      have hpassed := Direction.not_before_trans ha hba
      rw [hb hstop] at hpassed
      cases hpassed

theorem inRange_eq_false_of_before (hab : d.before a b = true) (ha : f.inRange d a = false) :
    f.inRange d b = false := by
  cases hb : f.inRange d b with
  | false => rfl
  | true =>
      rw [inRange_of_not_before (Direction.before_asymm hab) hb] at ha
      cases ha

/-- A stop bounds the keys from one side, so of the two ends one is enough, and which one it
is depends on the way of the walk. -/
theorem inRange_between (hab : a ≤ b) (hbc : b ≤ c) (ha : f.inRange d a = true)
    (hc : f.inRange d c = true) : f.inRange d b = true := by
  cases d with
  | forward => exact inRange_of_not_before (decide_eq_false (List.not_lt.mpr hbc)) hc
  | backward => exact inRange_of_not_before (decide_eq_false (List.not_lt.mpr hab)) ha

theorem hasStem_between (hab : a ≤ b) (hbc : b ≤ c) (ha : f.hasStem a = true)
    (hc : f.hasStem c = true) : f.hasStem b = true := by
  rw [hasStem_iff] at ha hc ⊢
  exact prefix_of_between (List.le_trans ha.le hab) hbc hc

theorem admits_between (hab : a ≤ b) (hbc : b ≤ c) (ha : f.admits d a = true)
    (hc : f.admits d c = true) : f.admits d b = true := by
  simp only [admits, Bool.and_eq_true] at ha hc ⊢
  exact ⟨inRange_between hab hbc ha.1 hc.1, hasStem_between hab hbc ha.2 hc.2⟩

/-- The same, with the three keys as a walk meets them. -/
theorem admits_of_not_before (hba : d.before b a = false) (hcb : d.before c b = false)
    (ha : f.admits d a = true) (hc : f.admits d c = true) : f.admits d b = true := by
  cases d with
  | forward =>
      have hab := List.not_lt.mp (of_decide_eq_false hba)
      have hbc := List.not_lt.mp (of_decide_eq_false hcb)
      exact admits_between hab hbc ha hc
  | backward =>
      have hab := List.not_lt.mp (of_decide_eq_false hba)
      have hbc := List.not_lt.mp (of_decide_eq_false hcb)
      exact admits_between hbc hab hc ha

theorem admits_eq_false (h : f.inRange d a = false) : f.admits d a = false := by
  rw [admits, h, Bool.false_and]

/-- A filter that admits two keys admits all between them, whichever way the walk goes. And
if its stop refuses a key, its stop refuses every key that the walk meets behind it, and so
does the filter. -/
theorem admits_convex (f : Filter) (d : Direction) :
    (∀ a b c : Bytes, a ≤ b → b ≤ c → f.admits d a = true → f.admits d c = true →
      f.admits d b = true) ∧
    ∀ a b : Bytes, d.before a b = true → f.inRange d a = false →
      f.inRange d b = false ∧ f.admits d b = false := by
  refine ⟨fun a b c hab hbc ha hc => admits_between hab hbc ha hc, ?_⟩
  intro a b hab ha
  have hb := inRange_eq_false_of_before hab ha
  exact ⟨hb, admits_eq_false hb⟩

/-- Down through the keys that begin with 255, one of them being just that, and past a stop
that is no stop for its own extensions. -/
theorem admits_convex_down :
    (Filter.mk [255] [255, 0]).admits .backward [255, 0, 1] = true ∧
    (Filter.mk [255] [255, 0]).inRange .backward [255] = false ∧
    (Filter.mk [255] [255, 0]).admits .backward [254, 9] = false := by
  obtain ⟨hbetween, hbehind⟩ := admits_convex (.mk [255] [255, 0]) .backward
  have hstop : (Filter.mk [255] [255, 0]).inRange .backward [255, 0] = false := by decide
  exact ⟨hbetween [255, 0, 0] [255, 0, 1] [255, 255] (by decide) (by decide) (by decide)
      (by decide),
    (hbehind [255, 0] [255] (by decide) hstop).1, (hbehind [255, 0] [254, 9] (by decide) hstop).2⟩

end Filter

/-! ## What a scan leaves behind -/

namespace StoreCursor

variable {s : Store} {d : Direction} {f : Filter}

theorem ahead_pairwise (d : Direction) (c : StoreCursor s) :
    (c.ahead d).Pairwise fun a b => d.before a.key b.key = true := by
  rw [ahead]
  split
  · refine List.pairwise_cons.mpr ⟨fun x hx => ?_, (s.walk_pairwise d).filter _⟩
    exact (List.mem_filter.mp hx).2
  · exact .nil

theorem not_before_of_mem_ahead {c : StoreCursor s} {e x : Entry} (hcurrent : c.current = some e)
    (hx : x ∈ c.ahead d) : d.before x.key e.key = false := by
  rw [ahead, hcurrent] at hx
  rcases List.mem_cons.mp hx with rfl | hx
  · exact Direction.before_irrefl d _
  · exact Direction.before_asymm (List.mem_filter.mp hx).2

theorem takeWhile_ahead_eq_filter {c : StoreCursor s}
    (hstart : ∀ e, c.current = some e → f.admits d e.key = true ∨ f.inRange d e.key = false) :
    ((c.ahead d).takeWhile fun e => f.admits d e.key) =
      (c.ahead d).filter fun e => f.admits d e.key := by
  refine takeWhile_eq_filter ((c.ahead_pairwise d).imp_of_mem ?_)
  intro x y hx hy hxy hadmits
  cases hcurrent : c.current with
  | none =>
      rw [ahead, hcurrent] at hx
      cases hx
  | some e =>
      rcases hstart e hcurrent with he | he
      · exact Filter.admits_of_not_before (not_before_of_mem_ahead hcurrent hx)
          (Direction.before_asymm hxy) he hadmits
      · -- Then `y` cannot be admitted, with the stop in front of it.
        rw [Filter.admits, Bool.and_eq_true] at hadmits
        rw [Filter.inRange_of_not_before (not_before_of_mem_ahead hcurrent hy) hadmits.1] at he
        cases he

/-- A fetch that starts on an admitted key, or where the stop has been passed, takes the
admitted ones of all the entries ahead, as many as its limit says, though it ends at the
first key refused. -/
theorem exists_fetch_admitted (logging : Bool) (limit : Int64) (pageSize : UInt64)
    {c : StoreCursor s}
    (hstart : ∀ e, c.current = some e → f.admits d e.key = true ∨ f.inRange d e.key = false) :
    ∃ c' p, (fetch logging d limit f pageSize c).Yields c' p ∧
      p.toList = cut limit ((c.ahead d).filter fun e => f.admits d e.key) := by
  obtain ⟨c', -, hfetch⟩ := exists_fetch (d := d) logging limit f pageSize c
  refine ⟨c', _, hfetch, ?_⟩
  rw [toList_pageOf, taken, takeWhile_ahead_eq_filter hstart]

end StoreCursor

end PagedScan
