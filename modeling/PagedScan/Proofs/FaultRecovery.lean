import PagedScan.Proofs.FaultyDrain

/-!
# A drain that failed can be taken up again

A cursor that fails stays on the entry from which it could not move on, and that
entry has been delivered already: it is the last one of the drain. So there is
always a key to seek, and seeking it brings the cursor back to where it failed,
with the fault spent and nothing left to count. What a second drain delivers from
there begins with the same entry, and with that entry taken once it is what the
first drain has left over.

That a seek comes to the very entry whose key it is given, and not to one before
it, is where the order of the store comes in. Everything else is the account of
draining read at two cursors of one stretch.
-/

namespace PagedScan

namespace StoreCursor

variable {s : Store} {d : Direction} {f : Filter}

/-- From the key of an entry in a stretch, the stretch is what it was from that
entry on. -/
theorem stretch_notBefore {c : StoreCursor s} {init rest : List Entry} {e : Entry}
    (h : c.stretch d f = init ++ e :: rest) :
    (notBefore s d e.key).stretch d f = e :: rest := by
  have hbehind : c.ahead d = init ++ e ::
      (rest ++ (c.ahead d).dropWhile fun e => f.admits d e.key) := eq_append_of_takeWhile h
  obtain ⟨c₁, -, hahead⟩ := exists_passes false hbehind
  have hseek := ahead_notBefore_of_current (d := d) (of_ahead_eq_cons hahead).1
  rw [← hahead, ← hseek] at hbehind
  have hadmits : ∀ x ∈ init, f.admits d x.key = true :=
    fun x hx => admits_of_mem_stretch (h ▸ List.mem_append_left (e :: rest) hx)
  rw [stretch_of_passed hadmits hbehind] at h
  exact List.append_cancel_left h

end StoreCursor

/-! ## The law of recovery -/

/-- A cursor of a store and a failing cursor around it that has not failed, drained
in the same way. If the second drain ends with an error to show, then it has
delivered an entry, and seeking the key of the last one clears the error. A drain
from there shows no error. It delivers that last entry and then others, and they
are, behind the entries that the failed drain delivered before the last one, what
the cursor without a fault delivers. -/
theorem drain_recovers (s : Store) (c : StoreCursor s) (stepsLeft : Option Nat)
    (logging : Bool) (d : Direction) (limit : Int64) (f : Filter) (pageSize : UInt64) :
    ∃ pages c₀ failed c₁,
      (drain logging d limit f pageSize c).Yields c₀ pages ∧
      (drain logging d limit f pageSize
        (⟨c, stepsLeft, none⟩ : FailingCursor (StoreCursor s))).Yields c₁ failed ∧
      ∀ error, Cursor.status c₁ = .error error → ∃ init last,
        failed.flatMap Page.toList = init ++ [last] ∧
        Cursor.status (Cursor.seek d last.key c₁) = .ok () ∧
        ∃ others c₂ rest,
          (drain logging d limit f pageSize (Cursor.seek d last.key c₁)).Yields c₂ others ∧
          Cursor.status c₂ = .ok () ∧
          others.flatMap Page.toList = last :: rest ∧
          init ++ others.flatMap Page.toList = pages.flatMap Page.toList := by
  obtain ⟨pages, c₀, hdrain, hpages, hwithin⟩ :=
    StoreCursor.exists_drain logging limit pageSize c (d := d) (f := f)
  by_cases henough : ∀ n, stepsLeft = some n → (c.stretch d f).length ≤ n
  · refine ⟨pages, c₀, pages, _, hdrain, hwithin stepsLeft henough, fun error herror => ?_⟩
    cases herror
  · push Not at henough
    obtain ⟨n, rfl, hn⟩ := henough
    obtain ⟨failed, c₁, hfails, hfailed⟩ :=
      StoreCursor.exists_drain_failing logging limit pageSize c hn
    refine ⟨pages, c₀, failed, _, hdrain, hfails, fun error _ => ?_⟩
    have hsplit : c.stretch d f = (c.stretch d f).take n ++
        (c.stretch d f)[n] :: (c.stretch d f).drop (n + 1) := by
      rw [← List.drop_eq_getElem_cons hn, List.take_append_drop]
    refine ⟨(c.stretch d f).take n, (c.stretch d f)[n], ?_, rfl, ?_⟩
    · rw [hfailed, List.take_append_getElem hn]
    obtain ⟨others, c₂, -, hothers, hsecond⟩ := StoreCursor.exists_drain logging limit pageSize
      (StoreCursor.notBefore s d (c.stretch d f)[n].key) (d := d) (f := f)
    rw [StoreCursor.stretch_notBefore hsplit] at hothers
    refine ⟨others, _, (c.stretch d f).drop (n + 1), hsecond none (by simp), rfl, hothers, ?_⟩
    rw [hothers, hpages, ← hsplit]

/-- Three entries, two to a page, and one step: the fault falls behind the second
entry, and a drain from there delivers that one again and the third. -/
theorem drain_recovers_third_entry :
    ∃ failed c₁ others c₂,
      (drain false .forward 2 {} 4 (FailingCursor.ofCursor
        (StoreCursor.first (.ofNames ["a", "b", "c"]) .forward fun _ => true) 1)).Yields
          c₁ failed ∧
      Cursor.status c₁ = .error FailingCursor.injected ∧
      (failed.flatMap Page.toList).map Entry.key = [[97], [98]] ∧
      (drain false .forward 2 {} 4 (Cursor.seek .forward [98] c₁)).Yields c₂ others ∧
      Cursor.status c₂ = .ok () ∧
      (others.flatMap Page.toList).map Entry.key = [[98], [99]] := by
  obtain ⟨pages, c₀, failed, c₁, hdrain, hfails, hrecovers⟩ := drain_recovers
    (.ofNames ["a", "b", "c"]) (.first _ .forward fun _ => true) (some 1) false .forward 2 {} 4
  have hstatus : Cursor.status c₁ = .error FailingCursor.injected := by
    rw [← hfails.state, Cursor.status,
      show Cursor.failure _ = some FailingCursor.injected by decide +kernel]
  obtain ⟨init, last, hfailed, -, others, c₂, rest, hsecond, hok, hothers, hwhole⟩ :=
    hrecovers _ hstatus
  have hfirst : (failed.flatMap Page.toList).map Entry.key = [[97], [98]] := by
    have hkeys : (drain false .forward 2 {} 4 (FailingCursor.ofCursor (StoreCursor.first
        (.ofNames ["a", "b", "c"]) .forward fun _ => true) 1)).answer.toOption.map
          (fun pages => (pages.flatMap Page.toList).map Entry.key) = some [[97], [98]] := by
      decide +kernel
    rw [show (drain false .forward 2 {} 4 (FailingCursor.ofCursor (StoreCursor.first
      (.ofNames ["a", "b", "c"]) .forward fun _ => true) 1)).answer = .ok failed from
        hfails.answer] at hkeys
    exact Option.some.inj hkeys
  have hall : (pages.flatMap Page.toList).map Entry.key = [[97], [98], [99]] := by
    have hkeys : (drain false .forward 2 {} 4 (StoreCursor.first (.ofNames ["a", "b", "c"])
        .forward fun _ => true)).answer.toOption.map
          (fun pages => (pages.flatMap Page.toList).map Entry.key) = some [[97], [98], [99]] := by
      decide +kernel
    rw [hdrain.answer] at hkeys
    exact Option.some.inj hkeys
  have hinit : init.map Entry.key ++ [last.key] = [[97]] ++ [[98]] := by
    rw [← List.map_singleton, ← List.map_append, ← hfailed]
    exact hfirst
  obtain ⟨hinit, hlast⟩ := List.append_inj' hinit rfl
  rw [List.singleton_inj] at hlast
  rw [hlast] at hsecond
  refine ⟨failed, c₁, others, c₂, hfails, hstatus, hfirst, hsecond, hok, ?_⟩
  rw [← hwhole, List.map_append, hinit] at hall
  exact (List.cons.inj hall).2

end PagedScan
