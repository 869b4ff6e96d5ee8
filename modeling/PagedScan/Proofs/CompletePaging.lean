import Mathlib.Data.List.TakeWhile
import PagedScan.Proofs.Pagination
import PagedScan.Proofs.Resumption

/-!
# Paging comes to an end, unless a page ends with the empty key

On a store that nobody writes to, a run of requests is one walk, cut into pages.
A request that goes on behind the last key of a page gets what the requests
before it have left, so the pages, end to end, are the `stretch` that the first
query would get without its limit, and how many there are can be said in
advance. This holds for any start and any stem.

It does not hold for every last key. An empty start is no start, so the request
that should go on behind the empty key begins at the edge again. A query runs
into this in two ways. Going down, the empty key is the last of all, and the page
that reaches it ends with it, whatever the limit is. Going up it is the first of
all, and a page ends with it only if it holds nothing else. `stalls` says just
that, and it says it of the run and not only of the first page: a query that does
not stall leaves one that does not, and one that stalls leaves one that does. So
the two halves are one induction each, and in the second half no page is ever
empty.
-/

namespace PagedScan

namespace Query

/-- The entries that a query would get if it had no limit. -/
def stretch (q : Query) (s : Store) : List Entry :=
  (q.candidates s).takeWhile fun e => q.keeps e.key

/-- Whether a page of the run ends with the empty key: the query gets that key,
and goes down to it or has it alone on the first page. -/
def stalls (q : Query) (s : Store) : Bool :=
  (∃ e ∈ q.stretch s, e.key = []) ∧ (q.reverse = true ∨ (q.selection s).length = 1)

variable {q : Query} {s : Store} {e : Entry} {rest : List Entry}

theorem selection_eq_stretch {limit : Int64} (hlimit : limit.toInt ≤ 0) (q : Query) (s : Store) :
    ({ q with limit := limit } : Query).selection s = q.stretch s :=
  cut_of_not_pos (Int.not_lt.mpr hlimit) _

theorem stretch_pairwise (q : Query) (s : Store) :
    (q.stretch s).Pairwise fun a b => q.direction.before a.key b.key = true :=
  (q.candidates_pairwise s).sublist (List.takeWhile_sublist _)

theorem of_mem_candidates (he : e ∈ q.candidates s) :
    e ∈ s.entries ∧ q.reaches e.key = true := by
  rw [candidates, ← walk_direction, List.mem_filter, Store.mem_walk, Bool.and_eq_true] at he
  exact ⟨he.1, he.2.1⟩

theorem of_mem_stretch (he : e ∈ q.stretch s) :
    e ∈ q.candidates s ∧ q.keeps e.key = true :=
  ⟨(List.takeWhile_sublist _).subset he,
    List.all_eq_true.mp (List.all_takeWhile (l := q.candidates s)) e he⟩

theorem candidates_of_no_start (h : q.startKey = []) (s : Store) :
    q.candidates s = s.walk q.direction := by
  rw [candidates, ← walk_direction]
  refine List.filter_eq_self.mpr fun x _ => ?_
  rw [reaches_of_no_start h, leavesOut_of_no_start h]
  rfl

/-- With an empty start a query begins at the edge, whatever it got before. -/
theorem selection_of_no_start (h : q.startKey = []) (s : Store) :
    q.selection s = cut q.limit ((s.walk q.direction).takeWhile fun e => q.keeps e.key) := by
  rw [selection, candidates_of_no_start h]

/-! ## What the next request gets -/

theorem candidates_resumed (hne : e.key ≠ []) {front : List Entry}
    (h : q.candidates s = front ++ e :: rest) : (q.resumed e.key).candidates s = rest := by
  have hreached : q.reaches e.key = true :=
    (of_mem_candidates (h ▸ List.mem_append_right front List.mem_cons_self)).2
  have hfilter : (q.resumed e.key).candidates s =
      (q.candidates s).filter fun x => q.direction.before e.key x.key := by
    rw [candidates, candidates, ← walk_direction, ← walk_direction, List.filter_filter]
    refine List.filter_congr fun x _ => ?_
    rw [(q.resumed e.key).begins_of_skipStart rfl hne]
    show q.direction.before e.key x.key = (q.direction.before e.key x.key && _)
    cases hx : q.direction.before e.key x.key with
    | false => rfl
    | true =>
        obtain ⟨hreaches, hin⟩ := reaches_of_before hreached hx
        rw [hreaches, hin]
        rfl
  rw [hfilter, h]
  exact filter_behind (h ▸ q.candidates_pairwise s)

/-- Behind an entry that it got, a query gets what it would have gone on to. -/
theorem stretch_resumed (hne : e.key ≠ []) {front : List Entry}
    (h : q.stretch s = front ++ e :: rest) : (q.resumed e.key).stretch s = rest := by
  have hcandidates : q.candidates s = front ++ e ::
      (rest ++ (q.candidates s).dropWhile fun e => q.keeps e.key) :=
    eq_append_of_takeWhile h
  have hkeeps : ∀ x ∈ front ++ [e], q.keeps x.key = true := by
    intro x hx
    refine (of_mem_stretch (s := s) ?_).2
    rw [h, List.append_cons]
    exact List.mem_append_left rest hx
  have hsplit : q.stretch s = front ++ [e] ++ (q.resumed e.key).stretch s := by
    rw [stretch, stretch, candidates_resumed hne hcandidates]
    conv => lhs; rw [hcandidates, List.append_cons, List.takeWhile_append_of_pos hkeeps]
    rfl
  rw [hsplit, List.append_assoc] at h
  exact (List.cons.inj (List.append_cancel_left h)).2

/-- The entries up to the last one on the page, and those that are left. -/
theorem exists_stretch_split (he : (q.selection s).getLast? = some e) :
    ∃ init rest, q.selection s = init ++ [e] ∧ q.stretch s = init ++ e :: rest := by
  obtain ⟨init, hinit⟩ := List.getLast?_eq_some_iff.mp he
  obtain ⟨rest, hrest⟩ := cut_isPrefix q.limit (q.stretch s)
  have hselection : cut q.limit (q.stretch s) = init ++ [e] := hinit
  rw [hselection, ← List.append_cons] at hrest
  exact ⟨init, rest, hinit, hrest.symm⟩

/-- A page and what the next request would get are what this one would get. -/
theorem stretch_eq_append (hne : e.key ≠ []) (he : (q.selection s).getLast? = some e) :
    q.stretch s = q.selection s ++ (q.resumed e.key).stretch s := by
  obtain ⟨init, rest, hinit, hrest⟩ := exists_stretch_split he
  rw [stretch_resumed hne hrest, hinit, hrest, List.append_cons]

/-- The next request has one page fewer before it. -/
theorem ceilDiv_stretch (hlimit : 0 < q.limit.toInt) (hne : e.key ≠ [])
    (he : (q.selection s).getLast? = some e) :
    (q.stretch s).length ⌈/⌉ q.limit.toInt.toNat =
      ((q.resumed e.key).stretch s).length ⌈/⌉ q.limit.toInt.toNat + 1 := by
  have hpage : 0 < (q.selection s).length :=
    List.length_pos_of_mem (List.mem_of_getLast? he)
  have htake : (q.selection s).length = min q.limit.toInt.toNat (q.stretch s).length :=
    (congrArg List.length (cut_of_pos hlimit _)).trans List.length_take
  have hsplit := congrArg List.length (stretch_eq_append hne he)
  rw [List.length_append] at hsplit
  rw [ceilDiv_eq_succ (by omega) (by omega)]
  congr 2
  omega

/-! ## Pages that end with the empty key -/

theorem stalls_iff : q.stalls s = true ↔
    (∃ e ∈ q.stretch s, e.key = []) ∧ (q.reverse = true ∨ (q.selection s).length = 1) := by
  rw [stalls, decide_eq_true_eq]

/-- Going up, a query that gets the empty key gets it first. -/
theorem front_eq_nil (hforward : q.reverse = false) {front : List Entry}
    (h : q.stretch s = front ++ e :: rest) (hkey : e.key = []) : front = [] := by
  have horder := q.stretch_pairwise s
  rw [h] at horder
  refine List.eq_nil_iff_forall_not_mem.mpr fun x hx => ?_
  have hbefore := (List.pairwise_append.mp horder).2.2 x hx e List.mem_cons_self
  rw [hkey, direction, Direction.ofReverse, hforward] at hbefore
  exact List.not_lt_nil _ (of_decide_eq_true hbefore)

theorem key_ne_nil_of_last (hstalls : q.stalls s = false)
    (he : (q.selection s).getLast? = some e) : e.key ≠ [] := by
  obtain ⟨init, rest, hinit, hrest⟩ := exists_stretch_split he
  rw [← Bool.not_eq_true, stalls_iff] at hstalls
  intro hkey
  refine hstalls ⟨⟨e, by rw [hrest]; simp, hkey⟩, ?_⟩
  cases hreverse : q.reverse with
  | true => exact .inl rfl
  | false =>
      rw [hinit, front_eq_nil hreverse hrest hkey]
      exact .inr rfl

theorem stalls_resumed_eq_false (hstalls : q.stalls s = false)
    (he : (q.selection s).getLast? = some e) : (q.resumed e.key).stalls s = false := by
  have hne := key_ne_nil_of_last hstalls he
  obtain ⟨init, rest, -, hrest⟩ := exists_stretch_split he
  rw [← Bool.not_eq_true, stalls_iff] at hstalls ⊢
  rw [stretch_resumed hne hrest]
  intro ⟨⟨x, hx, hkey⟩, _⟩
  cases hreverse : q.reverse with
  | true =>
      refine hstalls ⟨⟨x, ?_, hkey⟩, .inl hreverse⟩
      rw [hrest]
      exact List.mem_append_right init (List.mem_cons_of_mem e hx)
  | false =>
      obtain ⟨front, behind, rfl⟩ := List.append_of_mem hx
      rw [← List.cons_append, ← List.append_assoc] at hrest
      have hnil := front_eq_nil hreverse hrest hkey
      simp at hnil

/-- A query that has the empty key alone on its page gets the same page again. -/
theorem stretch_resumed_nil (hforward : q.reverse = false) (he : e ∈ q.stretch s)
    (hkey : e.key = []) : (q.resumed []).stretch s = q.stretch s := by
  have hstart : q.startKey = [] := by
    have hreaches := (of_mem_candidates (of_mem_stretch he).1).2
    rw [hkey, reaches, hforward, decide_eq_true_eq] at hreaches
    exact hreaches.elim id List.le_nil.mp
  rw [stretch, stretch, candidates_of_no_start hstart, candidates_of_no_start rfl]
  rfl

/-- A query that goes down to the empty key keeps to every key. -/
theorem keeps_of_nil (hreverse : q.reverse = true) (h : q.keeps [] = true) (key : Bytes) :
    q.keeps key = true := by
  rw [keeps, hreverse, decide_eq_true_eq] at h ⊢
  obtain ⟨hstop, hstem⟩ := h
  exact ⟨.inl (hstop.elim id fun hlt => absurd hlt (List.not_lt_nil _)),
    .inl (hstem.elim id List.prefix_nil.mp)⟩

theorem mem_stretch_resumed (hreverse : q.reverse = true) (he : e ∈ q.stretch s)
    (hkey : e.key = []) (last : Bytes) : e ∈ (q.resumed last).stretch s := by
  obtain ⟨hcandidate, hkeeps⟩ := of_mem_stretch he
  have hall : ∀ x ∈ (q.resumed last).candidates s, (q.resumed last).keeps x.key = true :=
    fun x _ => keeps_of_nil hreverse (hkey ▸ hkeeps) x.key
  rw [stretch, List.takeWhile_eq_self_iff.mpr hall, candidates, ← walk_direction, List.mem_filter,
    Store.mem_walk]
  refine ⟨(of_mem_candidates hcandidate).1, ?_⟩
  have hreaches : (q.resumed last).reaches e.key = true := by
    rw [reaches, hkey, decide_eq_true_eq, show (q.resumed last).reverse = true from hreverse]
    exact .inr (List.nil_le _)
  have hin : (q.resumed last).leavesOut e.key = false := by
    refine Bool.eq_false_iff.mpr fun hout => ?_
    obtain ⟨-, hne, heq⟩ := leavesOut_iff.mp hout
    exact hne (heq.symm.trans hkey)
  rw [hreaches, hin]
  rfl

theorem exists_last_of_stalls (hstalls : q.stalls s = true) :
    ∃ e, (q.selection s).getLast? = some e ∧ (q.resumed e.key).stalls s = true := by
  obtain ⟨⟨x, hx, hkey⟩, hends⟩ := stalls_iff.mp hstalls
  have hne : q.selection s ≠ [] := mt (cut_eq_nil_iff q.limit).mp (List.ne_nil_of_mem hx)
  obtain ⟨e, he⟩ := Option.ne_none_iff_exists'.mp (mt List.getLast?_eq_none_iff.mp hne)
  refine ⟨e, he, stalls_iff.mpr ?_⟩
  cases hreverse : q.reverse with
  | true => exact ⟨⟨x, mem_stretch_resumed hreverse hx hkey e.key, hkey⟩, .inl hreverse⟩
  | false =>
      have hone : (q.selection s).length = 1 := by
        refine hends.resolve_left fun hdown => ?_
        rw [hreverse] at hdown
        cases hdown
      -- The one entry on the page is the one with the empty key.
      obtain rfl : x = e := by
        obtain ⟨init, rest, hinit, hrest⟩ := exists_stretch_split he
        obtain ⟨front, behind, hfront⟩ := List.append_of_mem hx
        rw [hinit, List.length_append, List.length_singleton] at hone
        have hinit : init = [] := List.eq_nil_of_length_eq_zero (Nat.succ.inj hone)
        rw [front_eq_nil hreverse hfront hkey, hrest, hinit] at hfront
        exact (List.cons.inj hfront).1.symm
      have hagain := stretch_resumed_nil hreverse hx hkey
      rw [hkey]
      refine ⟨⟨x, hagain ▸ hx, hkey⟩, .inr ?_⟩
      show (cut q.limit ((q.resumed []).stretch s)).length = 1
      rw [hagain]
      exact hone

end Query

/-! ## The run, request by request -/

/-- A turn in which nobody writes. -/
def Turn.quiet (settings : Settings) : Turn := ⟨[], settings⟩

variable {s : Store} {q : Query}

/-- What `exists_request` says of a cursor made for the request holds of any. -/
theorem answers_of_request {p : Page} (hp : p.toList = q.selection s) :
    s.Answers q p.toList := by
  rw [hp]
  exact s.answers_selection q

theorem exists_paginate_to_empty (logging : Bool) (settings : List Settings)
    (hlimit : 0 < q.limit.toInt) (hstalls : q.stalls s = false)
    (hlong : (q.stretch s).length ⌈/⌉ q.limit.toInt.toNat < settings.length) :
    ∃ full last, paginate logging q s (settings.map Turn.quiet) = .ok (full ++ [last]) ∧
      full.length = (q.stretch s).length ⌈/⌉ q.limit.toInt.toNat ∧
      (∀ r ∈ full, r.page.toList ≠ []) ∧ last.page.toList = [] ∧
      (∀ r ∈ full ++ [last], s.Answers r.query r.page.toList) ∧
      delivered (full ++ [last]) = q.stretch s := by
  induction settings generalizing q with
  | nil => exact absurd hlong (Nat.not_lt_zero _)
  | cons turn settings ih =>
      obtain ⟨p, hrequest, hp⟩ := exists_request logging turn q s
      cases hlast : p.toList.getLast? with
      | none =>
          rw [List.getLast?_eq_none_iff] at hlast
          have hnil : q.stretch s = [] := (cut_eq_nil_iff q.limit).mp (hp.symm.trans hlast)
          refine ⟨[], ⟨s, q, p⟩, paginate_of_empty hrequest hlast, ?_, by simp, hlast, ?_, ?_⟩
          · rw [hnil, List.length_nil, List.length_nil, zero_ceilDiv]
          · exact List.forall_mem_singleton.mpr (answers_of_request hp)
          · rw [delivered, List.nil_append, List.flatMap_singleton, hlast, hnil]
      | some e =>
          have he := hp ▸ hlast
          have hne := Query.key_ne_nil_of_last hstalls he
          have hcount := Query.ceilDiv_stretch hlimit hne he
          rw [hcount, List.length_cons, Nat.add_lt_add_iff_right] at hlong
          obtain ⟨full, last, hrun, hlength, hfull, hempty, hanswers, hdelivered⟩ :=
            ih (q := q.resumed e.key) hlimit (Query.stalls_resumed_eq_false hstalls he) hlong
          refine ⟨⟨s, q, p⟩ :: full, last, paginate_of_last hrequest hlast hrun, ?_, ?_, hempty,
            List.forall_mem_cons.mpr ⟨answers_of_request hp, hanswers⟩, ?_⟩
          · rw [hcount, List.length_cons, hlength]
            rfl
          · refine List.forall_mem_cons.mpr ⟨fun hnil => ?_, hfull⟩
            rw [hnil] at hlast
            cases hlast
          · rw [List.cons_append, delivered, List.flatMap_cons, ← delivered, hdelivered, hp,
              ← Query.stretch_eq_append hne he]

theorem exists_paginate_stalling (logging : Bool) (settings : List Settings)
    (hstalls : q.stalls s = true) :
    ∃ run, paginate logging q s (settings.map Turn.quiet) = .ok run ∧
      run.length = settings.length ∧ (∀ r ∈ run, r.page.toList ≠ []) ∧
      ∀ r ∈ run, r.query.start = some [] →
        r.page.toList = cut q.limit ((s.walk q.direction).takeWhile fun e => q.keeps e.key) := by
  induction settings generalizing q with
  | nil => exact ⟨[], rfl, rfl, by simp, by simp⟩
  | cons turn settings ih =>
      obtain ⟨p, hrequest, hp⟩ := exists_request logging turn q s
      obtain ⟨e, he, hagain⟩ := Query.exists_last_of_stalls hstalls
      rw [← hp] at he
      obtain ⟨run, hrun, hlength, hfull, hover⟩ := ih hagain
      refine ⟨_, paginate_of_last hrequest he hrun, ?_, ?_, ?_⟩
      · rw [List.length_cons, List.length_cons, hlength]
      · refine List.forall_mem_cons.mpr ⟨fun hnil => ?_, hfull⟩
        rw [hnil] at he
        cases he
      · refine List.forall_mem_cons.mpr ⟨fun hstart => ?_, hover⟩
        have hnone : q.startKey = [] := congrArg (Option.getD · []) hstart
        rw [hp, Query.selection_of_no_start hnone]

/-! ## The law of complete pagination -/

/-- A run of requests on a store that nobody writes to, each but the first one
from behind the last key of the page before. If no page ends with the empty key,
the run comes to an empty page, after as many full or partly full ones as the
limit makes of the stretch, and its pages, end to end, are what the query gets
with any limit that is none. If the query gets the empty key, and goes down to it
or has it alone on the first page, the run never comes to an empty page, and a
request behind the empty key begins at the edge that the walk begins at. -/
theorem paginate_completes (logging : Bool) (s : Store) {q : Query}
    (hlimit : 0 < q.limit.toInt) :
    (∀ limit : Int64, limit.toInt ≤ 0 →
      s.Answers { q with limit := limit } (q.stretch s)) ∧
    (q.stalls s = false → ∀ settings : List Settings,
      (q.stretch s).length ⌈/⌉ q.limit.toInt.toNat < settings.length →
      ∃ full last, paginate logging q s (settings.map Turn.quiet) = .ok (full ++ [last]) ∧
        full.length = (q.stretch s).length ⌈/⌉ q.limit.toInt.toNat ∧
        (∀ r ∈ full, r.page.toList ≠ []) ∧ last.page.toList = [] ∧
        (∀ r ∈ full ++ [last], s.Answers r.query r.page.toList) ∧
        delivered (full ++ [last]) = q.stretch s) ∧
    (q.stalls s = true → ∀ settings : List Settings,
      ∃ run, paginate logging q s (settings.map Turn.quiet) = .ok run ∧
        run.length = settings.length ∧ (∀ r ∈ run, r.page.toList ≠ []) ∧
        ∀ r ∈ run, r.query.start = some [] →
          r.page.toList = cut q.limit ((s.walk q.direction).takeWhile fun e => q.keeps e.key)) := by
  refine ⟨fun limit hnone => ?_, fun hstalls settings hlong => ?_, fun hstalls settings => ?_⟩
  · rw [← Query.selection_eq_stretch hnone q s]
    exact s.answers_selection _
  · exact exists_paginate_to_empty logging settings hlimit hstalls hlong
  · exact exists_paginate_stalling logging settings hstalls

/-- Two to a page. Going up, the empty key is on a page with another one, and the
third page is empty. Going down, the second page ends with the empty key, and the
run goes round: behind the empty key come the two last keys again. -/
theorem paginate_completes_with_empty_key :
    (∃ full last, paginate false ⟨none, none, none, 2, false, false⟩ (.ofNames ["", "a", "b"])
        ((List.replicate 3 .standard).map Turn.quiet) = .ok (full ++ [last]) ∧
      full.length = 2 ∧ last.page.toList = [] ∧
      (delivered (full ++ [last])).map Entry.key = [[], [97], [98]]) ∧
    ∃ run, paginate false ⟨none, none, none, 2, true, false⟩ (.ofNames ["", "a", "b"])
        ((List.replicate 7 .standard).map Turn.quiet) = .ok run ∧
      run.length = 7 ∧ (∀ r ∈ run, r.page.toList ≠ []) ∧
      ∀ r ∈ run, r.query.start = some [] → r.page.toList.map Entry.key = [[98], [97]] := by
  constructor
  · obtain ⟨-, hcompletes, -⟩ := paginate_completes false (.ofNames ["", "a", "b"])
      (q := ⟨none, none, none, 2, false, false⟩) (by decide)
    obtain ⟨full, last, hrun, hlength, -, hempty, -, hdelivered⟩ :=
      hcompletes (by decide) (List.replicate 3 .standard) (by decide)
    refine ⟨full, last, hrun, hlength, hempty, ?_⟩
    rw [hdelivered]
    decide
  · obtain ⟨-, -, hstalls⟩ := paginate_completes false (.ofNames ["", "a", "b"])
      (q := ⟨none, none, none, 2, true, false⟩) (by decide)
    obtain ⟨run, hrun, hlength, hfull, hover⟩ :=
      hstalls (by decide) (List.replicate 7 .standard)
    refine ⟨run, hrun, hlength, hfull, fun r hr hstart => ?_⟩
    rw [hover r hr hstart]
    decide

/-- Not every run comes to an empty page, on a store that has the empty key and
with one entry to a page. -/
theorem paginate_not_always_complete :
    ¬ ∀ (s : Store) (q : Query), q.start = none → q.stem = none → 0 < q.limit.toInt →
      ∃ (settings : List Settings) (full : List Request) (last : Request),
        paginate false q s (settings.map Turn.quiet) = .ok (full ++ [last]) ∧
        last.page.toList = [] ∧
        s.Answers { q with limit := 0 } (delivered (full ++ [last])) := by
  intro h
  obtain ⟨settings, full, last, hrun, hempty, -⟩ :=
    h (.ofNames [""]) ⟨none, none, none, 1, false, false⟩ rfl rfl (by decide)
  obtain ⟨run, hrun', -, hfull, -⟩ := exists_paginate_stalling (s := .ofNames [""])
    (q := ⟨none, none, none, 1, false, false⟩) false settings (by decide)
  rw [hrun, Except.ok.injEq] at hrun'
  exact hfull last (hrun' ▸ List.mem_append_right full (List.mem_singleton_self last)) hempty

end PagedScan
