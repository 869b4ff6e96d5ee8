import PagedScan.Proofs.FaultWalk
import PagedScan.Proofs.StoreWalk
import PagedScan.Search

/-!
# No scan is misuse, and listening to it changes nothing

A cursor that stands on no entry may not be read or moved on. One that is all
the same answers with misuse, and since nothing a scan does goes on from there,
that answer is the scan's. So a scan that comes to a page has read and moved its
cursor only where there was an entry.

A scan asks whether its cursor is valid before it reads it or moves it on. That
is enough for a cursor that keeps its word: one that says it is valid can be
read and moved on. `SoundCursor` is that word, together with a second one, that
a step goes to the same place whether or not anyone listens to the log. The
cursor of a store gives both, being valid when it has an entry. A failing cursor
has to be looked at twice. It is not valid once it has failed, although the
cursor inside still stands on an entry; the other way round would be the danger,
and it does not happen, so whoever finds it valid finds the cursor inside valid
too. And the step that fails reads a key if somebody listens, which is the one
place where listening could make the difference between a page and misuse.

With sound cursors the rest is one lemma for each way in which outcomes are put
together. The loop of a fetch is the only one that needs an argument: it ends
because each step has fewer steps left behind it.
-/

namespace PagedScan

/-- The operation has one answer and leaves one state, whether or not anyone
listens. -/
def Steady {σ α : Type} (op : Bool → Outcome Misuse σ α) : Prop :=
  ∃ c a, ∀ logging, (op logging).Yields c a

namespace Steady

variable {σ α β : Type} {c : σ} {a : α}

theorem ok : Steady fun _ => (.ok c a : Outcome Misuse σ α) :=
  ⟨c, a, fun _ => .ok⟩

theorem report {event : Event} :
    Steady fun logging => (.report logging c a event : Outcome Misuse σ α) :=
  ⟨c, a, fun _ => .report⟩

theorem andThen {op : Bool → Outcome Misuse σ α} {next : Bool → σ → α → Outcome Misuse σ β}
    (h : Steady op) (hnext : ∀ c a, Steady fun logging => next logging c a) :
    Steady fun logging => (op logging).andThen (next logging) := by
  obtain ⟨c, a, h⟩ := h
  obtain ⟨c', b, hnext⟩ := hnext c a
  exact ⟨c', b, fun logging => (h logging).andThen (hnext logging)⟩

end Steady

/-! ## Sound cursors -/

/-- A cursor that is valid can be read and moved on, and a step goes to the same
place whether or not anyone listens. -/
class SoundCursor (σ : Type) [Cursor σ] : Prop where
  exists_entry : ∀ {c : σ}, Cursor.valid c = true →
    ∃ e : Entry, Cursor.key c = .ok e.key ∧ Cursor.value c = .ok e.value
  exists_step : ∀ {c : σ} (d : Direction), Cursor.valid c = true →
    ∃ c', ∀ logging, (Cursor.step logging d c).Yields c' ()

instance (s : Store) : SoundCursor (StoreCursor s) where
  exists_entry h := by
    obtain ⟨e, he⟩ := Option.isSome_iff_exists.mp h
    exact ⟨e, StoreCursor.key_of_current he, StoreCursor.value_of_current he⟩
  exists_step d h := by
    obtain ⟨e, he⟩ := Option.isSome_iff_exists.mp h
    exact ⟨_, fun _ => StoreCursor.step_of_current he⟩

instance (σ : Type) [Cursor σ] [SoundCursor σ] : SoundCursor (FailingCursor σ) where
  exists_entry {c} h := SoundCursor.exists_entry (c := c.inner) (FailingCursor.of_valid h).2
  exists_step {c} d h := by
    obtain ⟨inner, stepsLeft, failure⟩ := c
    obtain ⟨rfl, hvalid⟩ := FailingCursor.of_valid h
    by_cases hleft : stepsLeft = some 0
    · obtain ⟨e, hkey, -⟩ := SoundCursor.exists_entry hvalid
      subst hleft
      exact ⟨_, fun _ => FailingCursor.step_fails hkey⟩
    · obtain ⟨c', hstep⟩ := SoundCursor.exists_step d hvalid
      refine ⟨_, fun logging => FailingCursor.step_counted (fun n hn => ?_) (hstep logging)⟩
      refine Nat.pos_of_ne_zero fun hzero => hleft ?_
      rw [hn, hzero]

/-! ## Fetches -/

variable {σ : Type} [Cursor σ] [SoundCursor σ]

theorem stops_or_takes (d : Direction) (max : Option Nat) (f : Filter) (p : Page) (c : σ) :
    Stops d max f p c ∨ ∃ e : Entry, Cursor.valid c = true ∧ isFull max p = false ∧
      Cursor.key c = .ok e.key ∧ Cursor.value c = .ok e.value ∧ f.admits d e.key = true := by
  cases hvalid : Cursor.valid c with
  | false => exact .inl (.ended hvalid)
  | true =>
      obtain ⟨e, hkey, hvalue⟩ := SoundCursor.exists_entry hvalid
      cases hfull : isFull max p with
      | true => exact .inl (.full hfull)
      | false =>
          cases hadmits : f.admits d e.key with
          | false => exact .inl (.refused hkey hadmits)
          | true => exact .inr ⟨e, rfl, rfl, hkey, hvalue, hadmits⟩

theorem steady_fetchInto (d : Direction) (max : Option Nat) (f : Filter) (p : Page) (c : σ) :
    Steady fun logging => fetchInto logging d max f p c := by
  rcases stops_or_takes d max f p c with hstops | ⟨e, hvalid, hroom, hkey, hvalue, hadmits⟩
  · exact ⟨c, p, fun logging => fetchInto_of_stops hstops⟩
  · obtain ⟨c₁, hstep⟩ := SoundCursor.exists_step d hvalid
    have hless : Cursor.remaining d c₁ < Cursor.remaining d c := by
      rw [← (hstep false).state]
      exact Cursor.remaining_step hvalid (hstep false).answer
    obtain ⟨c', p', hrest⟩ := steady_fetchInto d max f (p.append e) c₁
    exact ⟨c', p', fun logging =>
      fetchInto_of_takes hvalid hroom hkey hvalue hadmits (hstep logging) (hrest logging)⟩
termination_by Cursor.remaining d c

theorem steady_fetch (d : Direction) (limit : Int64) (f : Filter) (pageSize : UInt64) (c : σ) :
    Steady fun logging => fetch logging d limit f pageSize c :=
  (steady_fetchInto d _ f _ c).andThen fun _ _ => .report

/-! ## Queries and searches -/

theorem Query.steady_leave (d : Direction) (key : Bytes) (c : σ) :
    Steady fun logging => leave logging d key c := by
  cases hvalid : Cursor.valid c with
  | false =>
      simp only [leave, hvalid, Bool.false_eq_true, if_false]
      exact .ok
  | true =>
      obtain ⟨e, hkey, -⟩ := SoundCursor.exists_entry hvalid
      simp only [leave, hvalid, if_true, hkey, Outcome.ofLookup]
      split
      · obtain ⟨c', hstep⟩ := SoundCursor.exists_step d hvalid
        exact ⟨c', (), hstep⟩
      · exact .ok

theorem Query.steady_position (q : Query) (c : σ) :
    Steady fun logging => q.position logging c := by
  simp only [position]
  cases q.startKey? with
  | none => exact .ok
  | some key =>
      dsimp only
      split
      · exact steady_leave _ _ _
      · exact .ok

theorem Query.steady_run (q : Query) (pageSize : UInt64) (index : Nat) (c : σ) :
    Steady fun logging => q.run logging pageSize index c :=
  (q.steady_position c).andThen fun _ _ => Steady.report.andThen fun _ _ => steady_fetch _ _ _ _ _

theorem steady_searchFrom (settings : Settings) (queries : List Query) (index : Nat) (c : σ) :
    Steady fun logging => searchFrom logging settings index queries c := by
  induction queries generalizing index c with
  | nil => exact .ok
  | cons q queries ih =>
      refine (q.steady_run settings.pageSize index c).andThen fun c p => ?_
      cases Cursor.failure c with
      | none => exact (ih (index + 1) c).andThen fun _ _ => .ok
      | some e =>
          refine Steady.report.andThen fun c _ => ?_
          cases settings.policy with
          | abort => exact .ok
          | proceed => exact (ih (index + 1) c).andThen fun _ _ => .ok

/-! ## All scans -/

/-- Whatever is asked of the cursor, putting it in place, fetching with it and
searching with it come to an answer, which is the same with the log and without. -/
structure ScansSteadily (c : σ) : Prop where
  fetch : ∀ d limit f pageSize, Steady fun logging => fetch logging d limit f pageSize c
  fetchMany : ∀ d limit f, Steady fun logging => fetchMany logging d limit f c
  position : ∀ q : Query, Steady fun logging => q.position logging c
  search : ∀ settings queries, Steady fun logging => search logging settings queries c

theorem scansSteadily (c : σ) : ScansSteadily c where
  fetch d limit f pageSize := steady_fetch d limit f pageSize c
  fetchMany d limit f := steady_fetch d limit f _ c
  position q := q.steady_position c
  search settings queries := steady_searchFrom settings queries 0 c

/-- No scan with a cursor of a store is misuse, nor is one with a failing cursor
around it, whatever state the cursor is in: failed, about to fail, or on no
entry. Its answer and the state it leaves do not depend on whether anyone
listens. -/
theorem storeCursor_scansSteadily (s : Store) :
    (∀ c : StoreCursor s, ScansSteadily c) ∧
      ∀ c : FailingCursor (StoreCursor s), ScansSteadily c :=
  ⟨scansSteadily, scansSteadily⟩

end PagedScan
