import Mathlib.Data.List.Pairwise
import PagedScan.Proofs.JsonGrammar
import PagedScan.Settings.Load

/-!
# Members in any order, and members of other names

An object says what its members say, whichever of them comes first. For a record that
is open the argument is about two neighbours: each is read as it was before when they
trade places, since the names that came before are asked about for fields alone and no
field comes twice, and what the two do can be done in either order, since distinct
fields hold distinct parts of the record. Any order is reached by such trades.

A member of another name does nothing to an open record, wherever it stands, and the
value is passed over whole. The same member ends the reading of a closed record at its
name. It is met there if what is in front of it can be read, and it can because the
whole was readable without the member; no such thing can be said of what is behind it,
nor does it matter.
-/

namespace PagedScan

namespace Json

/-- What the two fields do may be done in either order. -/
def Field.Commute {α : Type} (f g : Field α) : Prop :=
  ∀ ts ts' change change', f.reader.answer ts = .ok change → g.reader.answer ts' = .ok change' →
    ∀ a, change (change' a) = change' (change a)

instance {α : Type} : Std.Symm (@Field.Commute α) where
  symm _ _ h ts ts' change change' hchange hchange' a :=
    (h ts' ts change' change hchange' hchange a).symm

/-- Fields that put their values into different parts of the record. -/
theorem Field.Commute.put {α β γ : Type} {r : Reader β} {r' : Reader γ} {name name' : String}
    {put : β → α → α} {put' : γ → α → α} (h : ∀ v w a, put v (put' w a) = put' w (put v a)) :
    Field.Commute ⟨name, r.map put⟩ ⟨name', r'.map put'⟩ := by
  intro ts ts' change change' hchange hchange' a
  obtain ⟨v, -, rfl⟩ := Reader.of_answer_map hchange
  obtain ⟨w, -, rfl⟩ := Reader.of_answer_map hchange'
  exact h v w a

namespace Record

variable {α : Type} {r : Record α} {seen seen' : List String} {name name' : String} {a b : α}
  {m m' : Part} {members members' front back : List Part} {change change' : α → α}

theorem of_field? {f : Field α} (h : r.field? name = some f) : f ∈ r.fields ∧ f.name = name :=
  ⟨List.mem_of_find?_eq_some h, of_decide_eq_true (List.find?_some h :)⟩

theorem field?_eq_none_iff : r.field? name = none ↔ name ∉ r.fields.map Field.name := by
  rw [field?, List.find?_eq_none, List.mem_map]
  constructor
  · rintro h ⟨f, hf, hname⟩
    exact h f hf (decide_eq_true hname)
  · exact fun h f hf hname => h ⟨f, hf, of_decide_eq_true hname⟩

/-- A member is read by the field of its name, if the name is new, or not at all. -/
theorem memberReader_eq_ok_iff {reader : Reader (α → α)} :
    r.memberReader seen name = .ok reader ↔
      (∃ f, r.field? name = some f ∧ name ∉ seen ∧ reader = f.reader) ∨
        r.field? name = none ∧ r.closed = false ∧ reader = Reader.ignored.map fun _ => id := by
  rw [memberReader]
  cases r.field? name with
  | some f =>
      by_cases hseen : name ∈ seen
      · simp [hseen]
      · simpa [hseen] using ⟨Eq.symm, Eq.symm⟩
  | none =>
      cases r.closed with
      | true => simp
      | false => simpa using ⟨Eq.symm, Eq.symm⟩

theorem memberAnswer_eq_ok_iff :
    r.memberAnswer seen m = .ok (name, change) ↔
      ∃ reader, m.name = some name ∧ r.memberReader seen name = .ok reader ∧
        reader.answer m.value = .ok change := by
  obtain ⟨_ | name', ts⟩ := m
  · simp [memberAnswer]
  · rw [memberAnswer]
    constructor
    · intro h
      cases hreader : r.memberReader seen name' with
      | error p => rw [hreader] at h; cases h
      | ok reader =>
          rw [hreader] at h
          dsimp only at h
          cases hanswer : reader.answer ts with
          | error p => rw [hanswer] at h; cases h
          | ok change' =>
              rw [hanswer] at h
              cases h
              exact ⟨reader, rfl, hreader, hanswer⟩
    · rintro ⟨reader, ⟨⟩, hreader, hanswer⟩
      rw [hreader]
      dsimp only at hanswer ⊢
      rw [hanswer]
      rfl

/-- What a member that was read tells: its name is that of a field, and new, or it is of
no field, and then the member does nothing. -/
theorem of_memberAnswer (h : r.memberAnswer seen m = .ok (name, change)) :
    (∃ f ∈ r.fields, f.name = name ∧ f.reader.answer m.value = .ok change ∧ name ∉ seen) ∨
      name ∉ r.fields.map Field.name ∧ change = id := by
  obtain ⟨reader, -, hreader, hanswer⟩ := memberAnswer_eq_ok_iff.mp h
  rcases memberReader_eq_ok_iff.mp hreader with ⟨f, hf, hnew, rfl⟩ | ⟨hnone, -, rfl⟩
  · obtain ⟨hmem, hname⟩ := of_field? hf
    exact .inl ⟨f, hmem, hname, hanswer, hnew⟩
  · obtain ⟨_, -, rfl⟩ := Reader.of_answer_map hanswer
    exact .inr ⟨field?_eq_none_iff.mp hnone, rfl⟩

/-- The names that came before are asked about for fields alone. -/
theorem memberAnswer_congr
    (h : ∀ f ∈ r.fields, m.name = some f.name → (f.name ∈ seen ↔ f.name ∈ seen')) :
    r.memberAnswer seen m = r.memberAnswer seen' m := by
  obtain ⟨_ | name, ts⟩ := m
  · rfl
  · have hreader : r.memberReader seen name = r.memberReader seen' name := by
      rw [memberReader, memberReader]
      cases hfield : r.field? name with
      | none => rfl
      | some f =>
          obtain ⟨hf, rfl⟩ := of_field? hfield
          simp only [h f hf rfl]
    rw [memberAnswer, memberAnswer, hreader]

theorem readAll_congr (h : ∀ f ∈ r.fields, f.name ∈ seen ↔ f.name ∈ seen') :
    r.readAll seen a members = r.readAll seen' a members := by
  induction members generalizing seen seen' a with
  | nil => rfl
  | cons m members ih =>
      rw [readAll, readAll, memberAnswer_congr fun f hf _ => h f hf]
      cases r.memberAnswer seen' m with
      | error p => rfl
      | ok found =>
          refine ih fun f hf => ?_
          rw [List.mem_cons, List.mem_cons, h f hf]

theorem readAll_cons_eq_ok_iff :
    r.readAll seen a (m :: members) = .ok b ↔
      ∃ name change, r.memberAnswer seen m = .ok (name, change) ∧
        r.readAll (name :: seen) (change a) members = .ok b := by
  rw [readAll]
  cases r.memberAnswer seen m with
  | error p => simp
  | ok found =>
      obtain ⟨name, change⟩ := found
      simp

/-! ## The order of the members -/

/-- A member that was read is read as well with other names before it, unless its own name
is that of a field and has become one of these. -/
theorem memberAnswer_of_new (h : r.memberAnswer seen m = .ok (name, change))
    (hnew : ∀ f ∈ r.fields, f.name = name → (name ∈ seen ↔ name ∈ seen')) :
    r.memberAnswer seen' m = .ok (name, change) := by
  obtain ⟨_, hname, -⟩ := memberAnswer_eq_ok_iff.mp h
  rw [← h]
  refine (memberAnswer_congr fun f hf hmf => ?_).symm
  obtain rfl : name = f.name := by rwa [hname, Option.some.injEq] at hmf
  exact hnew f hf rfl

/-- No field comes twice. -/
theorem ne_of_memberAnswer (h : r.memberAnswer (name :: seen) m = .ok (name', change)) :
    ∀ f ∈ r.fields, f.name = name → name ≠ name' := by
  rintro f hf rfl rfl
  rcases of_memberAnswer h with ⟨_, _, _, _, hnew⟩ | ⟨hno, -⟩
  · exact hnew List.mem_cons_self
  · exact hno (List.mem_map_of_mem hf)

theorem changes_commute (hfields : r.fields.Pairwise Field.Commute)
    (hm : r.memberAnswer seen m = .ok (name, change))
    (hm' : r.memberAnswer seen' m' = .ok (name', change'))
    (hne : ∀ f ∈ r.fields, f.name = name → name ≠ name') (a : α) :
    change (change' a) = change' (change a) := by
  rcases of_memberAnswer hm with ⟨f, hf, hname, hanswer, -⟩ | ⟨-, rfl⟩
  · rcases of_memberAnswer hm' with ⟨g, hg, hname', hanswer', -⟩ | ⟨-, rfl⟩
    · have hfg : f ≠ g := by
        rintro rfl
        exact hne f hf hname (hname.symm.trans hname')
      exact hfields.forall hf hg hfg _ _ _ _ hanswer hanswer' a
    · rfl
  · rfl

/-- Two neighbours trade places. -/
theorem readAll_swap (hfields : r.fields.Pairwise Field.Commute)
    (h : r.readAll seen a (m :: m' :: members) = .ok b) :
    r.readAll seen a (m' :: m :: members) = .ok b := by
  obtain ⟨name, change, hm, h⟩ := readAll_cons_eq_ok_iff.mp h
  obtain ⟨name', change', hm', h⟩ := readAll_cons_eq_ok_iff.mp h
  have hne := ne_of_memberAnswer hm'
  have hfirst : r.memberAnswer seen m' = .ok (name', change') := by
    refine memberAnswer_of_new hm' fun f hf hname' => ?_
    have hother : name' ≠ name := fun heq => hne f hf (hname'.trans heq) heq.symm
    rw [List.mem_cons, or_iff_right hother]
  have hsecond : r.memberAnswer (name' :: seen) m = .ok (name, change) := by
    refine memberAnswer_of_new hm fun f hf hname => ?_
    rw [List.mem_cons, or_iff_right (hne f hf hname)]
  have hseen : ∀ f ∈ r.fields, f.name ∈ name' :: name :: seen ↔ f.name ∈ name :: name' :: seen := by
    intro f _
    simp only [List.mem_cons, or_left_comm]
  rw [readAll_congr hseen, ← changes_commute hfields hm hm' hne] at h
  exact readAll_cons_eq_ok_iff.mpr
    ⟨name', change', hfirst, readAll_cons_eq_ok_iff.mpr ⟨name, change, hsecond, h⟩⟩

theorem readAll_perm (hfields : r.fields.Pairwise Field.Commute)
    (hperm : members.Perm members') (h : r.readAll seen a members = .ok b) :
    r.readAll seen a members' = .ok b := by
  induction hperm generalizing seen a with
  | nil => exact h
  | cons m _ ih =>
      obtain ⟨name, change, hm, h⟩ := readAll_cons_eq_ok_iff.mp h
      exact readAll_cons_eq_ok_iff.mpr ⟨name, change, hm, ih h⟩
  | swap m m' members => exact readAll_swap hfields h
  | trans _ _ ih ih' => exact ih' (ih h)

/-! ## Members of other names -/

theorem readAll_foreign (hopen : r.closed = false) (hname : m.name = some name)
    (hforeign : name ∉ r.fields.map Field.name) (hvalue : IsValue m.value) :
    r.readAll seen a (m :: members) = r.readAll seen a members := by
  have hreader : r.memberReader seen name = .ok (Reader.ignored.map fun _ => id) :=
    memberReader_eq_ok_iff.mpr (.inr ⟨field?_eq_none_iff.mpr hforeign, hopen, rfl⟩)
  have hanswer : r.memberAnswer seen m = .ok (name, id) :=
    memberAnswer_eq_ok_iff.mpr
      ⟨_, hname, hreader, ((Reader.ignored_takes hvalue).map fun _ => id).answer_eq⟩
  rw [readAll, hanswer]
  refine readAll_congr fun f hf => ?_
  have hne : f.name ≠ name := fun heq => hforeign (heq ▸ List.mem_map_of_mem hf)
  rw [List.mem_cons, or_iff_right hne]

theorem readAll_foreigners (hopen : r.closed = false)
    (hforeign : ∀ m ∈ front, ∃ name, m.name = some name ∧ name ∉ r.fields.map Field.name)
    (hvalues : ∀ m ∈ front, IsValue m.value) :
    r.readAll seen a (front ++ members) = r.readAll seen a members := by
  induction front with
  | nil => rfl
  | cons m front ih =>
      obtain ⟨⟨name, hname, hm⟩, hfront⟩ := List.forall_mem_cons.mp hforeign
      obtain ⟨hvalue, hvalues⟩ := List.forall_mem_cons.mp hvalues
      rw [List.cons_append, readAll_foreign hopen hname hm hvalue, ih hfront hvalues]

/-- The members in front are read whatever comes behind them, if they were read once, and
leave behind no names but theirs. -/
theorem exists_readAll_front (h : r.readAll seen a (front ++ back) = .ok b) :
    ∃ seen' a', (∀ name ∈ seen', name ∈ seen ∨ ∃ m ∈ front, m.name = some name) ∧
      ∀ members, r.readAll seen a (front ++ members) = r.readAll seen' a' members := by
  induction front generalizing seen a with
  | nil => exact ⟨seen, a, fun _ hname => .inl hname, fun _ => rfl⟩
  | cons m front ih =>
      obtain ⟨name, change, hm, h⟩ := readAll_cons_eq_ok_iff.mp h
      obtain ⟨seen', a', hseen, hfront⟩ := ih h
      obtain ⟨_, hname, -⟩ := memberAnswer_eq_ok_iff.mp hm
      refine ⟨seen', a', fun other hother => ?_, fun members => ?_⟩
      · rcases hseen other hother with hmem | ⟨m', hm', hother⟩
        · rcases List.mem_cons.mp hmem with rfl | hmem
          · exact .inr ⟨m, List.mem_cons_self, hname⟩
          · exact .inl hmem
        · exact .inr ⟨m', List.mem_cons_of_mem m hm', hother⟩
      · rw [List.cons_append, readAll, hm]
        exact hfront members

/-- A closed record goes no further than to the name of such a member. -/
theorem exists_error_of_foreign (hclosed : r.closed = true)
    (hforeign : ∀ name, m.name = some name → name ∉ r.fields.map Field.name)
    (h : r.readAll seen a (front ++ back) = .ok b) :
    ∃ p, r.readAll seen a (front ++ m :: back) = .error p ∧
      ∀ name, m.name = some name → p = .unknownField name (r.fields.map Field.name) := by
  obtain ⟨seen', a', -, hfront⟩ := exists_readAll_front h
  rw [hfront, readAll]
  obtain ⟨_ | name, ts⟩ := m
  · exact ⟨.malformed, rfl, fun name h => by cases h⟩
  · have hreader : r.memberReader seen' name =
        .error (.unknownField name (r.fields.map Field.name)) := by
      rw [memberReader, field?_eq_none_iff.mpr (hforeign name rfl)]
      exact if_pos hclosed
    rw [memberAnswer, hreader]
    refine ⟨_, rfl, ?_⟩
    rintro _ ⟨⟩
    rfl

/-! ## A field that was not given -/

theorem readAll_insert_iff (hfields : r.fields.Pairwise Field.Commute) {f : Field α}
    (hf : r.field? name = some f) (hname : m.name = some name)
    (hnew : ∀ m' ∈ front ++ back, m'.name ≠ some name) (h : r.readAll [] a (front ++ back) = .ok b)
    {b' : α} :
    r.readAll [] a (front ++ m :: back) = .ok b' ↔
      ∃ change, f.reader.answer m.value = .ok change ∧ b' = change b := by
  -- In whatever place the field is put in, it may as well come last.
  have hperm : (front ++ m :: back).Perm ((front ++ back) ++ [m]) := by
    rw [List.append_assoc]
    exact (List.perm_append_singleton m back).symm.append_left front
  have hmoved : r.readAll [] a (front ++ m :: back) = .ok b' ↔
      r.readAll [] a ((front ++ back) ++ [m]) = .ok b' :=
    ⟨readAll_perm hfields hperm, readAll_perm hfields hperm.symm⟩
  have hnothing : r.readAll [] a ((front ++ back) ++ []) = .ok b := by
    rw [List.append_nil]
    exact h
  obtain ⟨seen, a', hseen, hothers⟩ := exists_readAll_front hnothing
  have hb : a' = b := by
    rw [hothers] at hnothing
    exact Except.ok.inj hnothing
  have hreader : r.memberReader seen name = .ok f.reader := by
    refine memberReader_eq_ok_iff.mpr (.inl ⟨f, hf, fun hmem => ?_, rfl⟩)
    rcases hseen name hmem with hnil | ⟨m', hm', hsame⟩
    · exact absurd hnil List.not_mem_nil
    · exact hnew m' hm' hsame
  rw [hmoved, hothers, hb, readAll_cons_eq_ok_iff]
  constructor
  · rintro ⟨name', change, hm, hb'⟩
    obtain ⟨reader, hname', hreader', hanswer⟩ := memberAnswer_eq_ok_iff.mp hm
    rw [hname, Option.some.injEq] at hname'
    rw [← hname', hreader] at hreader'
    cases hreader'
    exact ⟨change, hanswer, (Except.ok.inj hb').symm⟩
  · rintro ⟨change, hanswer, rfl⟩
    exact ⟨name, change, memberAnswer_eq_ok_iff.mpr ⟨f.reader, hname, hreader, hanswer⟩, rfl⟩

theorem readAll_replace {f : Field α} (hf : r.field? name = some f) (hname : m.name = some name)
    (hname' : m'.name = some name) (hanswer : f.reader.answer m.value = f.reader.answer m'.value) :
    r.readAll seen a (front ++ m :: back) = r.readAll seen a (front ++ m' :: back) := by
  have hmember : ∀ seen, r.memberAnswer seen m = r.memberAnswer seen m' := by
    intro seen
    obtain ⟨_, ts⟩ := m
    obtain ⟨_, ts'⟩ := m'
    dsimp only at hname hname' hanswer
    rw [hname, hname', memberAnswer, memberAnswer, memberReader, hf]
    dsimp only
    split
    · rfl
    · next hreader =>
        split at hreader
        · cases hreader
        · cases hreader
          rw [hanswer]
  induction front generalizing seen a with
  | nil => rw [List.nil_append, List.nil_append, readAll, readAll, hmember]
  | cons other front ih =>
      rw [List.cons_append, List.cons_append, readAll, readAll]
      cases r.memberAnswer seen other with
      | error p => rfl
      | ok found => exact ih

end Record

end Json

open Json

theorem Query.fields_commute : record.fields.Pairwise Field.Commute := by
  simp only [record, List.pairwise_cons, List.forall_mem_cons, List.not_mem_nil, false_implies,
    implies_true, and_true, List.Pairwise.nil]
  and_intros <;> exact .put fun _ _ _ => rfl

namespace Settings

variable {text : Bytes}

theorem exists_readText {s : Settings} (h : ofBytes text = .ok s) :
    ∃ s', record.reader.readText text = .ok s' := by
  rw [ofBytes, parse] at h
  cases hread : record.reader.readText text with
  | error p => rw [hread] at h; cases h
  | ok s' => exact ⟨s', rfl⟩

theorem ofBytes_of_error {p : Problem} (h : record.reader.readText text = .error p) :
    ofBytes text = .error (.settings (.unreadable p)) := by
  rw [ofBytes, parse, h]
  rfl

end Settings

theorem Query.parse_of_perm {o o' : Object} {extras : List Member} {q : Query}
    (ho : o.IsWritten) (ho' : o'.IsWritten) (hperm : o'.members.Perm (o.members ++ extras))
    (hextras : ∀ m ∈ extras, ∃ name, m.IsNamed name ∧ name ∉ record.fields.map Field.name)
    (hread : parse o.text = .ok q) : parse o'.text = .ok q := by
  rw [parse, ho.readText_eq fields_settle] at hread
  rw [parse, ho'.readText_eq fields_settle]
  -- With the others in front nothing has been read yet when they are passed over.
  have hparts : (extras.map Member.part ++ o.members.map Member.part).Perm
      (o'.members.map Member.part) := by
    rw [← List.map_append]
    exact (List.perm_append_comm.trans hperm.symm).map _
  have hwritten : ∀ m ∈ extras, m.IsWritten := fun m hm =>
    ho'.members m (hperm.mem_iff.mpr (List.mem_append_right _ hm))
  have hforeign : ∀ part ∈ extras.map Member.part, ∃ name, part.name = some name ∧
      name ∉ record.fields.map Field.name := by
    intro part hpart
    obtain ⟨m, hm, rfl⟩ := List.mem_map.mp hpart
    obtain ⟨name, hname, hno⟩ := hextras m hm
    exact ⟨name, (hwritten m hm).name?_eq_some_iff.mpr hname, hno⟩
  have hvalues : ∀ part ∈ extras.map Member.part, IsValue part.value := by
    intro part hpart
    obtain ⟨m, hm, rfl⟩ := List.mem_map.mp hpart
    exact (hwritten m hm).element.spells_value.2
  refine Record.readAll_perm fields_commute hparts ?_
  rw [Record.readAll_foreigners rfl hforeign hvalues]
  exact hread

theorem Settings.exists_error_of_foreign {o o' : Object} {front back : List Member} {m : Member}
    {s : Settings} (ho : o.IsWritten) (ho' : o'.IsWritten) (hmembers : o.members = front ++ back)
    (hmembers' : o'.members = front ++ m :: back)
    (hforeign : ∀ name, m.IsNamed name → name ∉ record.fields.map Field.name)
    (hread : ofBytes o.text = .ok s) :
    ∃ p, ofBytes o'.text = .error (.settings (.unreadable p)) ∧
      ∀ name, m.IsNamed name → p = .unknownField name (record.fields.map Field.name) := by
  have hm : m.IsWritten := ho'.members m (by simp [hmembers'])
  have hother : ∀ name, m.part.name = some name → name ∉ record.fields.map Field.name :=
    fun name hname => hforeign name (hm.name?_eq_some_iff.mp hname)
  obtain ⟨s', hread⟩ := exists_readText hread
  rw [ho.readText_eq fields_settle, hmembers, List.map_append] at hread
  obtain ⟨p, herror, hp⟩ := Record.exists_error_of_foreign rfl hother hread
  refine ⟨p, ofBytes_of_error ?_, fun name hname => hp name (hm.name?_eq_some_iff.mpr hname)⟩
  rw [ho'.readText_eq fields_settle, hmembers', List.map_append, List.map_cons]
  exact herror

/-- A query is read from its members in any order, and with any members of other names
anywhere among them, whose values may be any JSON at all. Settings that were read are
refused as soon as one such member is put anywhere among theirs: by its name, if that is a
text, and as malformed otherwise. -/
theorem members_read_by_name :
    (∀ (o o' : Object) (extras : List Member) (q : Query), o.IsWritten → o'.IsWritten →
      o'.members.Perm (o.members ++ extras) →
      (∀ m ∈ extras, ∃ name, m.IsNamed name ∧
        name ∉ ["from", "prefix", "end", "limit", "reverse", "exclude_from"]) →
      Query.parse o.text = .ok q → Query.parse o'.text = .ok q) ∧
    ∀ (o o' : Object) (front back : List Member) (m : Member) (s : Settings),
      o.IsWritten → o'.IsWritten → o.members = front ++ back →
      o'.members = front ++ m :: back →
      ¬ m.IsNamed "page_size" → ¬ m.IsNamed "error_policy" →
      Settings.ofBytes o.text = .ok s →
      ∃ p, Settings.ofBytes o'.text = .error (.settings (.unreadable p)) ∧
        ∀ name, m.IsNamed name → p = .unknownField name ["page_size", "error_policy"] := by
  constructor
  · intro o o' extras q ho ho' hperm hextras hread
    exact Query.parse_of_perm ho ho' hperm hextras hread
  · intro o o' front back m s ho ho' hmembers hmembers' hsize hpolicy hread
    have hforeign : ∀ name, m.IsNamed name → name ∉ Settings.record.fields.map Field.name := by
      intro name hname hmem
      have hknown : name = "page_size" ∨ name = "error_policy" := by
        simpa [Settings.record] using hmem
      rcases hknown with rfl | rfl
      · exact hsize hname
      · exact hpolicy hname
    exact Settings.exists_error_of_foreign ho ho' hmembers hmembers' hforeign hread

/-- A note that is a list with half of a pair of code units in it. -/
theorem members_read_by_name_past_note :
    Query.parse (Bytes.ofText "\x7b\"note\":[\"\\ud800\"],\"reverse\":true\x7d") =
      .ok { Query.all with reverse := true } ∧
    ∃ p, Settings.ofBytes (Bytes.ofText "\x7b\"note\":[\"\\ud800\"]\x7d") =
      .error (.settings (.unreadable p)) := by
  have hunit : StringLiteral.IsUnit (Bytes.ofText "d800") 0xD800 :=
    .digits (a := 'd') (b := '8') (c := '0') (d := '0') (w := 13) (x := 8) (y := 0) (z := 0)
      (by decide) (by decide) (by decide) (by decide)
  have hhalf : IsElement (Bytes.ofText "\"\\ud800\"") := .literal (.unit hunit .nil)
  have hnote : (Member.plain "note" (listText [] [Bytes.ofText "\"\\ud800\""])).IsWritten :=
    .plain (by decide) (.list .nil (by simpa using hhalf))
  have hreverse : (Member.plain "reverse" (Bytes.ofText "true")).IsWritten :=
    .plain (by decide) (.boolean true)
  have hname : ∀ name, (Member.plain "note" (listText [] [Bytes.ofText "\"\\ud800\""])).IsNamed
      name ↔ "note" = name := fun _ => Member.isNamed_plain_iff (by decide)
  have hreversed : (Object.compact [.plain "reverse" (Bytes.ofText "true")]).IsWritten :=
    .compact (by simpa using hreverse)
  have hempty : (Object.compact []).IsWritten := .compact (by simp)
  obtain ⟨hopen, hclosed⟩ := members_read_by_name
  constructor
  · refine hopen (.compact [.plain "reverse" (Bytes.ofText "true")])
      (.compact [.plain "note" (listText [] [Bytes.ofText "\"\\ud800\""]),
        .plain "reverse" (Bytes.ofText "true")]) [_] _ hreversed
      (.compact (by simpa using ⟨hnote, hreverse⟩)) (.swap _ _ _)
      (by simpa using ⟨_, (hname _).mpr rfl, by decide⟩) ?_
    rw [Query.parse, hreversed.readText_eq Query.fields_settle]
    have hparts : (Member.plain "reverse" (Bytes.ofText "true")).part =
        ⟨some "reverse", [.boolean true]⟩ := Member.part_plain (by decide) (.boolean true)
    simp only [Object.compact, List.map_cons, List.map_nil, hparts]
    rfl
  · have hread : Settings.ofBytes (Object.compact []).text = .ok .standard := by
      rw [Settings.ofBytes, Settings.parse, hempty.readText_eq Settings.fields_settle]
      rfl
    obtain ⟨p, herror, -⟩ := hclosed (.compact []) (.compact [.plain "note" _]) [] [] _ .standard
      hempty (.compact (by simpa using hnote)) rfl rfl (by rw [hname]; decide)
      (by rw [hname]; decide) hread
    exact ⟨p, herror⟩

end PagedScan
