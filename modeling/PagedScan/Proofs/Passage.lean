import PagedScan.Fetch
import PagedScan.Proofs.PageContents

/-!
# The entries a cursor passes

A fetch asks little of a cursor: what it stands on, and to move on. So the
outcome of a fetch depends on the cursor only through the entries that the
cursor passes on its way, and `Passes` is the record of such a way, one entry
after the other. Cursors of every kind are dealt with alike: show which entries
the cursor passes, and `fetch_of_passes` says what a fetch along them comes to.

A fetch stops for one of three reasons, and `Stops` lists them. That it stops
where it should, and not an entry early or late, is the whole content of the
lemma: the entries passed are exactly those on the page, and the cursor is left
on the first one that is not.
-/

namespace PagedScan

variable {σ : Type} [Cursor σ]

/-- Walking on from `c`, a cursor stands on these entries, one after the other,
and is in state `c'` behind the last of them. -/
inductive Passes (logging : Bool) (d : Direction) : σ → List Entry → σ → Prop
  | nothing (c : σ) : Passes logging d c [] c
  | entry {c c₁ c₂ : σ} {e : Entry} {es : List Entry}
      (valid : Cursor.valid c = true) (key : Cursor.key c = .ok e.key)
      (value : Cursor.value c = .ok e.value)
      (step : (Cursor.step logging d c).Yields c₁ ())
      (rest : Passes logging d c₁ es c₂) : Passes logging d c (e :: es) c₂

theorem Passes.trans {logging : Bool} {d : Direction} {c₁ c₂ c₃ : σ}
    {es es' : List Entry} (h : Passes logging d c₁ es c₂)
    (h' : Passes logging d c₂ es' c₃) : Passes logging d c₁ (es ++ es') c₃ := by
  induction h with
  | nothing => exact h'
  | entry valid key value step _ ih => exact .entry valid key value step (ih h')

/-- Why a fetch takes nothing more: the cursor stands on no entry, the page has
all it may have, or the filter does not admit the key. -/
inductive Stops (d : Direction) (max : Option Nat) (f : Filter) (p : Page) (c : σ) : Prop
  | ended (h : Cursor.valid c = false)
  | full (h : isFull max p = true)
  | refused {key : Bytes} (h : Cursor.key c = .ok key) (hkey : f.admits d key = false)

variable {logging : Bool} {d : Direction} {max : Option Nat} {f : Filter}

/-! ## One turn of the loop -/

theorem fetchInto_of_stops {p : Page} {c : σ} (h : Stops d max f p c) :
    (fetchInto logging d max f p c).Yields c p := by
  rw [fetchInto]
  cases h with
  | ended hvalid => rw [dif_neg (by rw [hvalid]; exact Bool.false_ne_true)]; exact .ok
  | full hfull =>
      split
      · exact .ok
      · exact .ok
  | refused hkey hadmits =>
      split
      · split
        · exact .ok
        · simp only [hkey, hadmits]; exact .ok
      · exact .ok

theorem fetchInto_of_takes {p p' : Page} {c c₁ c' : σ} {e : Entry}
    (hvalid : Cursor.valid c = true) (hroom : isFull max p = false)
    (hkey : Cursor.key c = .ok e.key) (hvalue : Cursor.value c = .ok e.value)
    (hadmits : f.admits d e.key = true) (hstep : (Cursor.step logging d c).Yields c₁ ())
    (h : (fetchInto logging d max f (p.append e) c₁).Yields c' p') :
    (fetchInto logging d max f p c).Yields c' p' := by
  rw [fetchInto, dif_pos hvalid, if_neg (by rw [hroom]; exact Bool.false_ne_true)]
  simp only [hkey, hadmits, hvalue, if_true]
  obtain ⟨hanswer, rfl⟩ := hstep
  split
  · next m c₂ events hfailed => rw [hfailed] at hanswer; cases hanswer
  · next c₂ events hmoved => rw [hmoved] at h; exact h.after

/-! ## The whole loop -/

/-- A page that may take some entries more is not full. -/
theorem isFull_eq_false {p : Page} {n : Nat}
    (h : ∀ m, max = some m → p.count + (n + 1) ≤ m) : isFull max p = false := by
  cases max with
  | none => rfl
  | some m =>
      have := h m rfl
      simp only [isFull, decide_eq_false_iff_not]
      omega

theorem fetchInto_of_passes {c c' : σ} {es : List Entry}
    (h : Passes logging d c es c') :
    ∀ {p : Page}, (∀ e ∈ es, f.admits d e.key = true) →
    (∀ m, max = some m → p.count + es.length ≤ m) →
    Stops d max f (p.appendAll es) c' →
    (fetchInto logging d max f p c).Yields c' (p.appendAll es) := by
  induction h with
  | nothing c => intro p _ _ hstops; exact fetchInto_of_stops hstops
  | @entry c c₁ c₂ e es hvalid hkey hvalue hstep _ ih =>
      intro p hadmits hroom hstops
      refine fetchInto_of_takes hvalid (isFull_eq_false hroom) hkey hvalue
        (hadmits e List.mem_cons_self) hstep (ih ?_ ?_ hstops)
      · exact fun x hx => hadmits x (List.mem_cons_of_mem e hx)
      · intro m hm
        have := hroom m hm
        rw [Page.count_append]
        rw [List.length_cons] at this
        omega

/-- The page that holds what a fetch took. -/
def pageOf (limit : Int64) (pageSize : UInt64) (taken : List Entry) : Page :=
  (startingPage limit pageSize).appendAll taken

theorem toList_pageOf (limit : Int64) (pageSize : UInt64) (taken : List Entry) :
    (pageOf limit pageSize taken).toList = taken := by
  rw [pageOf, Page.toList_appendAll (Page.whole_of_slots_eq rfl),
    Page.toList_of_slots_eq rfl, List.nil_append]

theorem count_pageOf (limit : Int64) (pageSize : UInt64) (taken : List Entry) :
    (pageOf limit pageSize taken).count = taken.length := by
  rw [pageOf, Page.count_appendAll]
  exact Nat.zero_add _

/-- A fetch takes the entries that the cursor passes, if it may take them all
and has a reason to stop behind them. -/
theorem fetch_of_passes {limit : Int64} {pageSize : UInt64} {c c' : σ}
    {taken : List Entry} (h : Passes logging d c taken c')
    (hadmits : ∀ e ∈ taken, f.admits d e.key = true)
    (hroom : ∀ m, limit? limit = some m → taken.length ≤ m)
    (hstops : Stops d (limit? limit) f (pageOf limit pageSize taken) c') :
    (fetch logging d limit f pageSize c).Yields c' (pageOf limit pageSize taken) := by
  have hcount : ∀ m, limit? limit = some m →
      (startingPage limit pageSize).count + taken.length ≤ m := by
    intro m hm
    rw [show (startingPage limit pageSize).count = 0 from rfl, Nat.zero_add]
    exact hroom m hm
  exact (fetchInto_of_passes h hadmits hcount hstops).andThen .report

/-! ## What a fetch took -/

/-- A walk that comes to a page has passed the entries it added, and has not added more
than it may. -/
theorem exists_passes_of_fetchInto {p p' : Page} {c c' : σ}
    (h : (fetchInto logging d max f p c).Yields c' p') :
    ∃ es, Passes logging d c es c' ∧ p' = p.appendAll es ∧
      ∀ m, max = some m → p.count ≤ m → p.count + es.length ≤ m := by
  fun_induction fetchInto logging d max f p c with
  | case1 | case6 | case7 =>
      obtain ⟨hanswer, rfl⟩ := h
      cases hanswer
      exact ⟨[], .nothing _, rfl, fun _ _ hm => hm⟩
  | case2 | case3 | case4 => cases h.answer
  | case5 p c hvalid hroom key hkey hadmits value hvalue c₁ events hstep ih =>
      obtain ⟨es, hpasses, hp, hmax⟩ := ih ⟨h.answer, h.state⟩
      have hmoved : (Cursor.step logging d c).Yields c₁ () := by rw [hstep]; exact ⟨rfl, rfl⟩
      refine ⟨⟨key, value⟩ :: es, .entry hvalid hkey hvalue hmoved hpasses, hp, ?_⟩
      rintro m rfl hm
      rw [isFull, decide_eq_true_eq, Nat.not_le] at hroom
      have := hmax m rfl (by rw [Page.count_append]; exact hroom)
      rw [Page.count_append] at this
      rw [List.length_cons]
      omega

/-- A fetch that comes to a page has passed the entries on it. -/
theorem exists_passes_of_fetch {limit : Int64} {pageSize : UInt64} {p : Page} {c c' : σ}
    (h : (fetch logging d limit f pageSize c).Yields c' p) :
    ∃ es, Passes logging d c es c' ∧ p = pageOf limit pageSize es ∧
      ∀ m, limit? limit = some m → es.length ≤ m := by
  obtain ⟨c₁, p₁, hinto, hreport⟩ := Outcome.Yields.of_andThen h
  cases hreport.answer
  obtain rfl : c₁ = c' := hreport.state
  obtain ⟨es, hpasses, hp, hmax⟩ := exists_passes_of_fetchInto hinto
  refine ⟨es, hpasses, hp, fun m hm => ?_⟩
  have hle := hmax m hm (Nat.zero_le m)
  rw [show (startingPage limit pageSize).count = 0 from rfl, Nat.zero_add] at hle
  exact hle

end PagedScan
