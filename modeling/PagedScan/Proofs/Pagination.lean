import PagedScan.Proofs.WholeRange
import PagedScan.Store.Write

/-!
# Paging by the last key, while the store changes

A caller that cannot keep a cursor asks page by page: each request starts from
the last key of the page before and leaves that key out. Between two requests
the store may change in any way, and the key that the next one starts from may
be gone by then, or have new neighbours. Neither does harm. A request begins
with what lies strictly behind its start, whether or not the start is there.

So a request asks for what the one before it asked for, less what lies up to the
last key that was delivered; `asksFor_resumed` says this of keys, and no store
comes into it. From there it is an induction over the run. Every page lies
behind the pages before it. A key that is asked for and is in the store, but not
on the page, lies behind the page, since the page is a first part of all that is
asked for; so the next request asks for it again, and one day an empty page says
that there is none left.

The empty key is the exception to all of this, because an empty start is no
start, and a request that should begin behind it begins at the edge. Here no
store has it.
-/

namespace PagedScan

/-! ## Stores that others write to -/

namespace Write

/-- The keys that the change is about. A batch that cannot be decoded is about
none. -/
def keys : Write → List Bytes
  | put e => [e.key]
  | erase key => [key]
  | batch b => match b.ops with
    | .ok ops => ops.map Op.key
    | .error _ => []

end Write

namespace Store

/-- No entry of the store has the empty key. -/
def Named (s : Store) : Prop :=
  ∀ e ∈ s.entries, e.key ≠ []

variable {s : Store}

theorem Named.put (h : s.Named) {e : Entry} (he : e.key ≠ []) : (s.put e).Named := by
  intro x hx
  rcases Ascending.mem_insert hx with rfl | hx
  · exact he
  · exact h x hx

theorem Named.erase (h : s.Named) (key : Bytes) : (s.erase key).Named :=
  fun x hx => h x (List.mem_filter.mp hx).1

theorem Named.applyAll {ops : List Op} (h : s.Named) (hops : ∀ op ∈ ops, op.key ≠ []) :
    (s.applyAll ops).Named := by
  induction ops generalizing s with
  | nil => exact h
  | cons op ops ih =>
      obtain ⟨hop, hops⟩ := List.forall_mem_cons.mp hops
      refine ih ?_ hops
      cases op with
      | put key value => exact h.put hop
      | erase key => exact h.erase key

theorem Named.write (h : s.Named) {w : Write} (hw : ∀ key ∈ w.keys, key ≠ []) :
    (w.run s).Named := by
  cases w with
  | put e => exact h.put (hw _ (List.mem_singleton_self _))
  | erase key => exact h.erase key
  | batch b =>
      rw [Write.run, Store.write]
      rw [Write.keys] at hw
      cases hops : b.ops with
      | error e => exact h
      | ok ops =>
          rw [hops] at hw
          exact h.applyAll fun op hop => hw op.key (List.mem_map_of_mem hop)

theorem Named.writes {writes : List Write} (h : s.Named)
    (hwrites : ∀ w ∈ writes, ∀ key ∈ w.keys, key ≠ []) :
    (s.writeEach writes).Named := by
  induction writes generalizing s with
  | nil => exact h
  | cons w writes ih =>
      obtain ⟨hw, hwrites⟩ := List.forall_mem_cons.mp hwrites
      exact ih (h.write hw) hwrites

end Store

/-! ## A run of requests -/

/-- The query that goes on behind a key. -/
def Query.resumed (q : Query) (last : Bytes) : Query :=
  { q with start := some last, skipStart := true }

/-- What comes before a request, and the settings that the request is made with. -/
structure Turn where
  writes : List Write
  settings : Settings

/-- A request that was answered, with the store as it was then. -/
structure Request where
  store : Store
  query : Query
  page : Page

/-- Searches a store for one query, with a cursor made for it. -/
def request (logging : Bool) (settings : Settings) (q : Query) (s : Store) :
    Except Misuse Page :=
  (search logging settings [q] s.cursor).answer.bind fun r => r.page 0

/-- Requests one page after the other, each from behind the last key of the page
before, until a page is empty or there are no turns left. -/
def paginate (logging : Bool) (q : Query) (s : Store) :
    List Turn → Except Misuse (List Request)
  | [] => .ok []
  | turn :: turns =>
      let s := s.writeEach turn.writes
      (request logging turn.settings q s).bind fun p =>
        match p.keys.getLast? with
        | none => .ok [⟨s, q, p⟩]
        | some last => (paginate logging (q.resumed last) s turns).map (⟨s, q, p⟩ :: ·)

/-- The entries that a run delivered. -/
def delivered (run : List Request) : List Entry :=
  run.flatMap fun r => r.page.toList

theorem exists_request (logging : Bool) (settings : Settings) (q : Query) (s : Store) :
    ∃ p, request logging settings q s = .ok p ∧ p.toList = q.selection s := by
  obtain ⟨r, c', p, hsearch, -, hp, hentries⟩ :=
    s.answers_selection q s.cursor logging settings [] []
  refine ⟨p, ?_, hentries⟩
  have hpage : r.page 0 = .ok p := by
    have hget : r.get? 0 = some p := hp
    rw [Results.page, hget]
  rw [request, show search logging settings [q] s.cursor =
    search logging settings ([] ++ [q]) s.cursor from rfl, hsearch.answer]
  exact hpage

theorem Page.getLast?_keys (p : Page) : p.keys.getLast? = p.toList.getLast?.map Entry.key := by
  rw [← List.getLast?_map, Page.toList, List.map_map]
  rfl

/-! A run is one request and, if its page has a last key, the run from behind it. -/

theorem paginate_of_empty {logging : Bool} {turn : Turn} {turns : List Turn} {q : Query}
    {s : Store} {p : Page}
    (h : request logging turn.settings q (s.writeEach turn.writes) = .ok p)
    (hp : p.toList = []) :
    paginate logging q s (turn :: turns) = .ok [⟨s.writeEach turn.writes, q, p⟩] := by
  rw [paginate]
  simp only [h, Except.bind, Page.getLast?_keys, hp, List.getLast?_nil, Option.map_none]

theorem paginate_of_last {logging : Bool} {turn : Turn} {turns : List Turn} {q : Query}
    {s : Store} {p : Page} {e : Entry} {run : List Request}
    (h : request logging turn.settings q (s.writeEach turn.writes) = .ok p)
    (he : p.toList.getLast? = some e)
    (hrun : paginate logging (q.resumed e.key) (s.writeEach turn.writes) turns = .ok run) :
    paginate logging q s (turn :: turns) = .ok (⟨s.writeEach turn.writes, q, p⟩ :: run) := by
  rw [paginate]
  simp only [h, Except.bind, Page.getLast?_keys, he, Option.map_some, hrun, Except.map]

/-! ## What the next request asks for -/

namespace Query

variable {q : Query} {last key : Bytes}

theorem reaches_of_before (hlast : q.reaches last = true)
    (hbefore : q.direction.before last key = true) :
    q.reaches key = true ∧ q.leavesOut key = false := by
  by_cases hstart : q.startKey = []
  · exact ⟨reaches_of_no_start hstart key, leavesOut_of_no_start hstart key⟩
  · rw [reaches_eq hstart] at hlast ⊢
    have hstay : q.direction.before last q.startKey = false := by simpa using hlast
    constructor
    · cases hback : q.direction.before key q.startKey with
      | false => rfl
      | true =>
          rw [Direction.before_trans hbefore hback] at hstay
          cases hstay
    · refine Bool.eq_false_iff.mpr fun hout => ?_
      rw [(leavesOut_iff.mp hout).2.2] at hbefore
      rw [hbefore] at hstay
      cases hstay

/-- Behind a key that it asks for, a query that goes on asks for the same keys. -/
theorem asksFor_resumed (hne : last ≠ []) (hlast : q.asksFor last = true) :
    (q.resumed last).asksFor key = (q.direction.before last key && q.asksFor key) := by
  rw [(q.resumed last).asksFor_of_skipStart rfl hne]
  show (q.direction.before last key && q.keeps key) = _
  cases hbefore : q.direction.before last key with
  | false => rfl
  | true =>
      rw [asksFor, Bool.and_eq_true, Bool.and_eq_true] at hlast
      obtain ⟨hreaches, hin⟩ := reaches_of_before hlast.1.1 hbefore
      rw [asksFor, hreaches, hin]
      rfl

/-! ## What one page leaves -/

variable {s : Store} {e : Entry}

theorem asksFor_of_mem_selection (hstem : q.stem.getD [] = []) (he : e ∈ q.selection s) :
    e ∈ s.entries ∧ q.asksFor e.key = true := by
  rw [selection_eq_cut_filter (startsInStem_of_no_stem hstem)] at he
  obtain ⟨hwalk, hasks⟩ := List.mem_filter.mp ((cut_isPrefix _ _).subset he)
  exact ⟨Store.mem_walk.mp hwalk, hasks⟩

/-- The last entry of a page comes after every other one on it. -/
theorem eq_or_before_last (he : (q.selection s).getLast? = some e) {x : Entry}
    (hx : x ∈ q.selection s) : x = e ∨ q.direction.before x.key e.key = true := by
  obtain ⟨init, hinit⟩ := List.getLast?_eq_some_iff.mp he
  have horder := q.selection_pairwise s
  rw [hinit] at horder hx
  rcases List.mem_append.mp hx with hx | hx
  · exact .inr ((List.pairwise_append.mp horder).2.2 x hx e (List.mem_singleton_self e))
  · exact .inl (List.mem_singleton.mp hx)

/-- An entry that is asked for and is not on the page lies behind all that are,
and some are if any may be. -/
theorem mem_selection_or_before (hstem : q.stem.getD [] = []) (hlimit : 0 < q.limit.toInt)
    (he : e ∈ s.entries) (hasks : q.asksFor e.key = true) :
    e ∈ q.selection s ∨ q.selection s ≠ [] ∧
      ∀ x ∈ q.selection s, q.direction.before x.key e.key = true := by
  have horder := (s.walk_pairwise q.direction).filter fun e => q.asksFor e.key
  have hmem : e ∈ (s.walk q.direction).filter fun e => q.asksFor e.key :=
    List.mem_filter.mpr ⟨Store.mem_walk.mpr he, hasks⟩
  have hselection := selection_eq_cut_filter (startsInStem_of_no_stem hstem) s
  rw [cut, if_pos hlimit] at hselection
  rw [← List.take_append_drop q.limit.toInt.toNat
    ((s.walk q.direction).filter fun e => q.asksFor e.key), ← hselection] at hmem horder
  rcases List.mem_append.mp hmem with hpage | hrest
  · exact .inl hpage
  · refine .inr ⟨fun hnil => ?_, fun x hx => (List.pairwise_append.mp horder).2.2 x hx e hrest⟩
    -- A page that may take something and is empty leaves nothing behind.
    rw [hselection, List.take_eq_nil_iff] at hnil
    rcases hnil with hzero | hnil
    · omega
    · rw [hnil, List.drop_nil] at hrest
      cases hrest

end Query

/-! ## The whole run -/

/-- What there is to say of a run that began with the query `q`. -/
structure Delivers (q : Query) (run : List Request) : Prop where
  ordered : (delivered run).Pairwise fun a b => q.direction.before a.key b.key = true
  asked : ∀ e ∈ delivered run, q.asksFor e.key = true
  stored : ∀ r ∈ run, ∀ e ∈ r.page.toList, e ∈ r.store.entries
  complete : (∃ r ∈ run, r.page.toList = []) → ∀ key, q.asksFor key = true →
    (∀ r ∈ run, ∃ e ∈ r.store.entries, e.key = key) → ∃ e ∈ delivered run, e.key = key

namespace Delivers

variable {q : Query} {s : Store} {p : Page}

theorem nil : Delivers q [] where
  ordered := List.Pairwise.nil
  asked := by simp [delivered]
  stored := by simp
  complete := by simp

theorem last (hstem : q.stem.getD [] = []) (hlimit : 0 < q.limit.toInt)
    (hp : p.toList = q.selection s) (hnil : p.toList = []) : Delivers q [⟨s, q, p⟩] where
  ordered := by simp [delivered, hnil]
  asked := by simp [delivered, hnil]
  stored := by simp [hnil]
  complete := by
    intro _ key hasks hstores
    obtain ⟨e, he, rfl⟩ := hstores _ (List.mem_singleton_self _)
    rw [hp] at hnil
    rcases q.mem_selection_or_before hstem hlimit he hasks with hpage | ⟨hne, -⟩
    · rw [hnil] at hpage
      cases hpage
    · exact absurd hnil hne

theorem behind {run : List Request} {key : Bytes} (h : Delivers (q.resumed key) run)
    (hne : key ≠ []) (hkey : q.asksFor key = true) :
    ∀ x ∈ delivered run, q.direction.before key x.key = true ∧ q.asksFor x.key = true := by
  intro x hx
  have hasks := h.asked x hx
  rw [q.asksFor_resumed hne hkey, Bool.and_eq_true] at hasks
  exact hasks

/-- A page, and a run that goes on behind its last key. -/
theorem cons {run : List Request} {e : Entry} (hstem : q.stem.getD [] = [])
    (hlimit : 0 < q.limit.toInt) (hs : s.Named) (hp : p.toList = q.selection s)
    (he : p.toList.getLast? = some e) (h : Delivers (q.resumed e.key) run) :
    Delivers q (⟨s, q, p⟩ :: run) := by
  have hmem : e ∈ q.selection s := hp ▸ List.mem_of_getLast? he
  obtain ⟨hstored, hlast⟩ := q.asksFor_of_mem_selection hstem hmem
  have hne : e.key ≠ [] := hs e hstored
  have hbehind := h.behind hne hlast
  have hdelivered : delivered (⟨s, q, p⟩ :: run) = q.selection s ++ delivered run := by
    rw [delivered, List.flatMap_cons, hp, delivered]
  refine ⟨?ordered, ?asked, ?stored, ?complete⟩
  case ordered =>
    rw [hdelivered]
    refine List.pairwise_append.mpr ⟨q.selection_pairwise s, h.ordered, ?_⟩
    intro x hx y hy
    rcases q.eq_or_before_last (hp ▸ he) hx with rfl | hx
    · exact (hbehind y hy).1
    · exact Direction.before_trans hx (hbehind y hy).1
  case asked =>
    rw [hdelivered]
    intro x hx
    rcases List.mem_append.mp hx with hx | hx
    · exact (q.asksFor_of_mem_selection hstem hx).2
    · exact (hbehind x hx).2
  case stored =>
    refine List.forall_mem_cons.mpr ⟨fun x hx => ?_, h.stored⟩
    exact (q.asksFor_of_mem_selection hstem (hp ▸ hx)).1
  case complete =>
    intro hstopped key hasks hstores
    obtain ⟨⟨x, hx, rfl⟩, hstores⟩ := List.forall_mem_cons.mp hstores
    rw [hdelivered]
    rcases q.mem_selection_or_before hstem hlimit hx hasks with hx | ⟨-, hbefore⟩
    · exact ⟨x, List.mem_append_left _ hx, rfl⟩
    · -- Not on this page, so the next request asks for it; and this page was not the empty one.
      have hstopped : ∃ r ∈ run, r.page.toList = [] := by
        obtain ⟨r, hr, hnil⟩ := hstopped
        rcases List.mem_cons.mp hr with rfl | hr
        · rw [hnil] at he
          cases he
        · exact ⟨r, hr, hnil⟩
      have hmore : (q.resumed e.key).asksFor x.key = true := by
        rw [q.asksFor_resumed hne hlast, hbefore e hmem, hasks]
        rfl
      obtain ⟨y, hy, hkey⟩ := h.complete hstopped x.key hmore hstores
      exact ⟨y, List.mem_append_right _ hy, hkey⟩

end Delivers

theorem exists_paginate (logging : Bool) (turns : List Turn) {q : Query} {s : Store}
    (hs : s.Named) (hstem : q.stem.getD [] = []) (hlimit : 0 < q.limit.toInt)
    (hturns : ∀ turn ∈ turns, ∀ w ∈ turn.writes, ∀ key ∈ w.keys, key ≠ []) :
    ∃ run, paginate logging q s turns = .ok run ∧ Delivers q run := by
  induction turns generalizing q s with
  | nil => exact ⟨[], rfl, .nil⟩
  | cons turn turns ih =>
      obtain ⟨hturn, hturns⟩ := List.forall_mem_cons.mp hturns
      have hnamed := hs.writes hturn
      obtain ⟨p, hrequest, hp⟩ :=
        exists_request logging turn.settings q (s.writeEach turn.writes)
      cases hlast : p.toList.getLast? with
      | none =>
          rw [List.getLast?_eq_none_iff] at hlast
          exact ⟨_, paginate_of_empty hrequest hlast, .last hstem hlimit hp hlast⟩
      | some e =>
          obtain ⟨run, hrun, hdelivers⟩ := ih (q := q.resumed e.key) hnamed hstem hlimit hturns
          exact ⟨_, paginate_of_last hrequest hlast hrun,
            .cons hstem hlimit hnamed hp hlast hdelivers⟩

/-! ## The law of pagination -/

/-- A run of requests on a store that others write to, from any start, up or
down, each page of at most as many entries as the limit says. Every request is
answered, the keys are delivered in strict order over the whole run, and every
entry was in the store when it was delivered. Once a page is empty, each key
within the bounds that was in the store at every request has been delivered
exactly once. -/
theorem paginate_delivers (logging : Bool) (turns : List Turn) {q : Query} {s : Store}
    (hs : s.Named) (hstem : q.stem.getD [] = []) (hskip : q.skipStart = false)
    (hlimit : 0 < q.limit.toInt)
    (hturns : ∀ turn ∈ turns, ∀ w ∈ turn.writes, ∀ key ∈ w.keys, key ≠ []) :
    ∃ run, paginate logging q s turns = .ok run ∧
      ((delivered run).map Entry.key).Pairwise
        (fun a b => if q.reverse then b < a else a < b) ∧
      (∀ r ∈ run, ∀ e ∈ r.page.toList, e ∈ r.store.entries) ∧
      ((∃ r ∈ run, r.page.toList = []) → ∀ key, q.reaches key = true → q.keeps key = true →
        (∀ r ∈ run, ∃ e ∈ r.store.entries, e.key = key) →
        ((delivered run).map Entry.key).count key = 1) := by
  obtain ⟨run, hrun, hdelivers⟩ := exists_paginate logging turns hs hstem hlimit hturns
  have hordered : ((delivered run).map Entry.key).Pairwise
      fun a b => q.direction.before a b = true :=
    List.pairwise_map.mpr hdelivers.ordered
  refine ⟨run, hrun, hordered.imp fun {a b} hab => ?_, hdelivers.stored, ?_⟩
  · rw [Query.direction, Direction.ofReverse] at hab
    split at hab
    · next hreverse => simpa [hreverse, Direction.before] using hab
    · next hreverse => simpa [hreverse, Direction.before] using hab
  · intro hstopped key hreaches hkeeps hstores
    have hasks : q.asksFor key = true := by
      rw [Query.asksFor, hreaches, Query.leavesOut_of_no_skip hskip, hkeeps]
      rfl
    obtain ⟨e, he, hkey⟩ := hdelivers.complete hstopped key hasks hstores
    have hnodup : ((delivered run).map Entry.key).Nodup := by
      refine hordered.imp fun {a b} hab heq => ?_
      rw [heq, Direction.before_irrefl] at hab
      cases hab
    rw [hnodup.count, if_pos (List.mem_map.mpr ⟨e, he, hkey⟩)]

/-- Two to a page. Once the first page is out its last key is erased, and another
put in right behind where it was; the run goes on to `c`, and then ends. -/
theorem paginate_delivers_past_erased :
    ∃ run, paginate false ⟨none, none, none, 2, false, false⟩ (.ofNames ["a", "b", "c"])
        [⟨[], .standard⟩, ⟨[.erase [98], .put ⟨[98, 0], []⟩], .standard⟩, ⟨[], .standard⟩] =
          .ok run ∧
      (delivered run).map Entry.key = [[97], [98], [98, 0], [99]] ∧
      ((delivered run).map Entry.key).count [99] = 1 := by
  obtain ⟨run, hrun, -, -, hcomplete⟩ := paginate_delivers false
    [⟨[], .standard⟩, ⟨[.erase [98], .put ⟨[98, 0], []⟩], .standard⟩, ⟨[], .standard⟩]
    (q := ⟨none, none, none, 2, false, false⟩) (s := .ofNames ["a", "b", "c"])
    (by unfold Store.Named; decide) rfl rfl (by decide) (by simp [Write.keys])
  have hkeys : (paginate false ⟨none, none, none, 2, false, false⟩ (.ofNames ["a", "b", "c"])
      [⟨[], .standard⟩, ⟨[.erase [98], .put ⟨[98, 0], []⟩], .standard⟩,
        ⟨[], .standard⟩]).toOption.map (fun run => (run.map (·.store.entries.map Entry.key),
          run.map (·.page.toList.map Entry.key))) =
      some ([[[97], [98], [99]], [[97], [98, 0], [99]], [[97], [98, 0], [99]]],
        [[[97], [98]], [[98, 0], [99]], []]) := by
    decide +kernel
  rw [hrun] at hkeys
  simp only [Except.toOption, Option.map_some, Option.some.injEq, Prod.mk.injEq] at hkeys
  obtain ⟨hstores, hpages⟩ := hkeys
  refine ⟨run, hrun, ?_, hcomplete ?_ [99] (by decide) (by decide) fun r hr => ?_⟩
  · rw [delivered, List.map_flatMap, List.flatMap_def, hpages]
    rfl
  · have hempty : [] ∈ run.map (·.page.toList.map Entry.key) := by rw [hpages]; decide
    obtain ⟨r, hr, hnil⟩ := List.mem_map.mp hempty
    exact ⟨r, hr, List.map_eq_nil_iff.mp hnil⟩
  · have hall : ∀ keys ∈ run.map (·.store.entries.map Entry.key), [99] ∈ keys := by
      rw [hstores]
      decide
    exact List.mem_map.mp (hall _ (List.mem_map_of_mem hr))

end PagedScan
