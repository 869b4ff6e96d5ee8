import Mathlib.Data.List.Forall2
import PagedScan.Json.Record
import PagedScan.Proofs.Spelling

/-!
# What readers make of tokens

The second half of reading a written text back. A reader `Takes` some tokens for
a value if it takes them off the front of any list that begins with them, and
leaves what is behind. So readers are put together as the tokens are: a list is
taken element by element, and a record field by field, each with its change to
what was read before.

A record can be given in two ways. As a list it is read field by field; `Fills` says
what the values make of the blank record. As an object it is read member by member,
in whatever order these come, and `readAll` says what they make of it, once the
tokens of each value are set apart. That they can be is not clear from the reader,
which gets all the tokens that are left and not those of a value; it takes that the
reader of each value `Settles` it without looking behind. The fields in their own
order are one way to give an object, and there it matters that no two of them share
a name: the name of the field at hand is found where it stands, and is none of those
that came before.
-/

namespace PagedScan.Json

namespace Reader

variable {α β : Type} {r : Reader α} {ts : List Token}

/-- What a reader answers to the tokens of one value. -/
def answer (r : Reader α) (ts : List Token) : Except Problem α :=
  (r.run ts).map Prod.fst

/-- Whatever is behind these tokens, the reader answers to them alone, and leaves what
is behind them if it takes them for a value. -/
def Settles (r : Reader α) (ts : List Token) : Prop :=
  ∀ rest, r.run (ts ++ rest) = (r.answer ts).map (·, rest)

theorem answer_of_run {answer : Except Problem α}
    (h : ∀ rest, r.run (ts ++ rest) = answer.map (·, rest)) : r.answer ts = answer := by
  have hrun := h []
  rw [List.append_nil] at hrun
  rw [Reader.answer, hrun]
  cases answer <;> rfl

theorem settles_of_run {answer : Except Problem α}
    (h : ∀ rest, r.run (ts ++ rest) = answer.map (·, rest)) : r.Settles ts := by
  intro rest
  rw [answer_of_run h]
  exact h rest

theorem answer_scalar (accept : Token → Except Problem α) (t : Token) :
    (scalar accept).answer [t] = accept t :=
  answer_of_run fun _ => rfl

theorem answer_map (r : Reader α) (f : α → β) (ts : List Token) :
    (r.map f).answer ts = (r.answer ts).map f := by
  show ((r.run ts).map _).map _ = ((r.run ts).map _).map _
  cases r.run ts <;> rfl

theorem of_answer_map {f : α → β} {b : β} (h : (r.map f).answer ts = .ok b) :
    ∃ a, r.answer ts = .ok a ∧ b = f a := by
  rw [answer_map] at h
  cases ha : r.answer ts with
  | error p => rw [ha] at h; cases h
  | ok a => rw [ha] at h; cases h; exact ⟨a, rfl, rfl⟩

end Reader

/-- The reader takes these tokens, and no others behind them, for the value. No
value begins with the end of a list. -/
structure Reader.Takes {α : Type} (r : Reader α) (ts : List Token) (a : α) : Prop where
  run : ∀ rest, r.run (ts ++ rest) = .ok (a, rest)
  begins : ts.head? ≠ some .closeList

namespace Reader.Takes

variable {α β : Type} {r : Reader α} {ts : List Token} {a : α}

theorem ne_nil (h : r.Takes ts a) : ts ≠ [] := by
  rintro rfl
  exact absurd (r.takes (h.run [])) (Nat.lt_irrefl _)

/-- With anything behind the tokens, they do not begin with the end of a list. -/
theorem head?_append (h : r.Takes ts a) (rest : List Token) :
    (ts ++ rest).head? ≠ some .closeList := by
  cases ts with
  | nil => exact absurd rfl h.ne_nil
  | cons t ts => exact h.begins

theorem answer_eq (h : r.Takes ts a) : r.answer ts = .ok a :=
  answer_of_run fun rest => h.run rest

theorem settles (h : r.Takes ts a) : r.Settles ts :=
  @settles_of_run _ _ _ (.ok a) fun rest => h.run rest

theorem readText (h : r.Takes ts a) {text : Bytes} (htext : Spells text ts) :
    r.readText text = .ok a := by
  have hrun := h.run []
  rw [List.append_nil] at hrun
  rw [Reader.readText, htext.tokens_eq, hrun]

theorem map (h : r.Takes ts a) (f : α → β) : (r.map f).Takes ts (f a) where
  run rest := by
    show (r.run (ts ++ rest)).map _ = _
    rw [h.run]
    rfl
  begins := h.begins

theorem scalar {accept : Token → Except Problem α} {t : Token} (h : accept t = .ok a)
    (ht : t ≠ .closeList) : (Reader.scalar accept).Takes [t] a where
  run rest := by
    show (accept t).map _ = _
    rw [h]
    rfl
  begins := by simpa using ht

theorem boolean (b : Bool) : Reader.boolean.Takes [.boolean b] b :=
  scalar rfl Token.noConfusion

/-- An integer in the range of its type, and of words in general. -/
theorem integer {expected : String} {low high z : Int} (hrange : low ≤ z ∧ z ≤ high)
    (hword : Number.inWordRange z = true) :
    (Reader.integer expected low high).Takes [.number (.ofInt z)] z := by
  refine scalar ?_ Token.noConfusion
  dsimp only
  rw [Number.value_ofInt hword]
  exact if_pos hrange

theorem byte (b : UInt8) : Reader.byte.Takes [.number (.ofInt b.toNat)] b := by
  have hlt := b.toNat_lt
  have hword : Number.inWordRange b.toNat = true := by
    simp only [Number.inWordRange, Bool.and_eq_true, decide_eq_true_eq, Int64.toInt_minValue,
      UInt64.size]
    omega
  have h : (Reader.integer "u8" 0 255).Takes [.number (.ofInt b.toNat)] b.toNat :=
    integer (by omega) hword
  have hbyte := h.map fun z => UInt8.ofNat z.toNat
  rw [Int.toNat_natCast, UInt8.ofNat_toNat] at hbyte
  exact hbyte

theorem int64 (n : Int64) : Reader.int64.Takes [.number (.ofInt n.toInt)] n := by
  have hlow := n.minValue_le_toInt
  have hhigh := n.toInt_le
  have hword : Number.inWordRange n.toInt = true := by
    have hmax := Int64.toInt_maxValue
    simp only [Number.inWordRange, Bool.and_eq_true, decide_eq_true_eq, UInt64.size]
    omega
  have h : (Reader.integer "i64" Int64.minValue.toInt Int64.maxValue.toInt).Takes
      [.number (.ofInt n.toInt)] n.toInt := integer ⟨hlow, hhigh⟩ hword
  have hvalue := h.map Int64.ofInt
  rw [Int64.ofInt_toInt] at hvalue
  exact hvalue

end Reader.Takes

/-! ## Lists -/

section Lists

variable {α : Type} {r : Reader α} {tss : List (List Token)} {as : List α}

theorem moreElements_of_takes (h : List.Forall₂ (fun ts a => r.Takes ts a) tss as)
    (rest : List Token) :
    Reader.moreElements r (tss.flatMap (Token.comma :: ·) ++ .closeList :: rest) =
      .ok (as, rest) := by
  induction h with
  | nil => rw [List.flatMap_nil, List.nil_append, Reader.moreElements]
  | @cons ts a tss as hts _ ih =>
      rw [List.flatMap_cons, List.append_assoc, List.cons_append, Reader.moreElements]
      split
      · next hrun => rw [hts.run] at hrun; cases hrun
      · next hrun =>
          rw [hts.run] at hrun
          cases hrun
          rw [ih]
          rfl

theorem elements_of_takes (h : List.Forall₂ (fun ts a => r.Takes ts a) tss as)
    (rest : List Token) :
    Reader.elements r (separated tss ++ .closeList :: rest) = .ok (as, rest) := by
  cases h with
  | nil => rfl
  | @cons ts a tss as hts htss =>
      rw [separated, List.append_assoc, Reader.elements]
      · rw [hts.run]
        dsimp only
        rw [moreElements_of_takes htss]
        rfl
      · intro rest' heq
        exact hts.head?_append _ (by rw [heq]; rfl)

end Lists

/-! ## Records -/

namespace Record

variable {α : Type} {r : Record α} {f : Field α} {fields before : List (Field α)}
  {ts : List Token} {tss : List (List Token)} {change : α → α} {a b : α}

/-- The tokens are values of the fields, in order, and read one after the other
they turn `a` into `b`. -/
inductive Fills : List (Field α) → List (List Token) → α → α → Prop
  | nil (a : α) : Fills [] [] a a
  | cons {f : Field α} {fields : List (Field α)} {ts : List Token}
      {tss : List (List Token)} {change : α → α} {a b : α}
      (h : f.reader.Takes ts change) (hrest : Fills fields tss (change a) b) :
      Fills (f :: fields) (ts :: tss) a b

/-- A field whose value is read by a reader of its own and then put in. -/
theorem Fills.put {β : Type} {reader : Reader β} {v : β} {name : String}
    {put : β → α → α} (h : reader.Takes ts v) (hrest : Fills fields tss (put v a) b) :
    Fills (⟨name, reader.map put⟩ :: fields) (ts :: tss) a b :=
  .cons (h.map put) hrest

/-! ### As a list -/

theorem moreElements_of_fills (h : Fills fields tss a b) (rest : List Token) :
    moreElements a fields (tss.flatMap (Token.comma :: ·) ++ .closeList :: rest) =
      .ok (b, rest) := by
  induction h with
  | nil => rw [List.flatMap_nil, List.nil_append, moreElements]
  | @cons f fields ts tss change a b hf _ ih =>
      rw [List.flatMap_cons, List.append_assoc, List.cons_append, moreElements, hf.run]
      exact ih

theorem elements_of_fills (h : Fills r.fields tss r.blank b) (rest : List Token) :
    r.elements (separated tss ++ .closeList :: rest) = .ok (b, rest) := by
  rw [elements.eq_def]
  generalize r.fields = fields at h
  cases h with
  | nil => rfl
  | @cons f fields ts tss change _ _ hf hfields =>
      rw [separated, List.append_assoc]
      split
      · next heq => exact absurd (by rw [heq]; rfl) (hf.head?_append _)
      · next hcons _ =>
          cases hcons
          rw [hf.run]
          exact moreElements_of_fills hfields rest
      · next hnil _ => cases hnil

theorem reader_takes_list (h : Fills r.fields tss r.blank b) :
    r.reader.Takes (listTokens tss) b where
  run rest := by
    rw [listTokens, List.cons_append, List.append_assoc]
    exact elements_of_fills h rest
  begins := by simp [listTokens]

/-! ### As an object -/

/-- What a member does whose value is set apart from what is behind it. -/
def memberAnswer (r : Record α) (seen : List String) :
    Part → Except Problem (String × (α → α))
  | ⟨none, _⟩ => .error .malformed
  | ⟨some name, ts⟩ =>
      match r.memberReader seen name with
      | .error p => .error p
      | .ok reader => (reader.answer ts).map (name, ·)

/-- What members do one after the other, given the names that came before. -/
def readAll (r : Record α) (seen : List String) (a : α) :
    List Part → Except Problem α
  | [] => .ok a
  | m :: members =>
      match r.memberAnswer seen m with
      | .error p => .error p
      | .ok (name, change) => r.readAll (name :: seen) (change a) members

/-- Whatever reads the value of the member, what is behind it makes no difference. -/
def Settles (r : Record α) (m : Part) : Prop :=
  ∀ seen name reader, m.name = some name → r.memberReader seen name = .ok reader →
    reader.Settles m.value

theorem member_of_settles {seen : List String} {m : Part}
    (h : r.Settles m) (rest : List Token) :
    r.member seen (m.tokens ++ rest) = (r.memberAnswer seen m).map (·, rest) := by
  obtain ⟨_ | name, ts⟩ := m
  · rfl
  · rw [Part.tokens, List.cons_append, List.cons_append, member, memberAnswer]
    cases hreader : r.memberReader seen name with
    | error p => rfl
    | ok reader =>
        dsimp only
        rw [h seen name reader rfl hreader rest]
        cases reader.answer ts <;> rfl

theorem members_of_error {seen : List String} {ts : List Token} {p : Problem}
    (h : r.member seen ts = .error p) : r.members seen a ts = .error p := by
  rw [members]
  split <;> rename_i hm <;> rw [h] at hm <;> cases hm
  rfl

theorem members_of_last {seen : List String} {ts rest : List Token} {name : String}
    (h : r.member seen ts = .ok ((name, change), .closeObject :: rest)) :
    r.members seen a ts = .ok (change a, rest) := by
  rw [members]
  split
  · next hm => rw [h] at hm; cases hm
  · next hm => rw [h] at hm; cases hm; rfl
  · next hm => rw [h] at hm; cases hm
  · next hother _ hm => rw [h] at hm; cases hm; exact (hother _ _ _ rfl).elim

theorem members_of_comma {seen : List String} {ts rest : List Token} {name : String}
    (h : r.member seen ts = .ok ((name, change), .comma :: rest)) :
    r.members seen a ts = r.members (name :: seen) (change a) rest := by
  rw [members]
  split
  · next hm => rw [h] at hm; cases hm
  · next hm => rw [h] at hm; cases hm
  · next hm => rw [h] at hm; cases hm; rfl
  · next _ hother hm => rw [h] at hm; cases hm; exact (hother _ _ _ rfl).elim

theorem members_of_settles {seen : List String} {members : List Part}
    (hne : members ≠ []) (h : ∀ m ∈ members, r.Settles m) (rest : List Token) :
    r.members seen a (separated (members.map Part.tokens) ++ .closeObject :: rest) =
      (r.readAll seen a members).map (·, rest) := by
  -- What is behind a member depends on whether it was the last, so the step looks one
  -- member further.
  induction members generalizing seen a with
  | nil => exact absurd rfl hne
  | cons m members ih =>
      obtain ⟨hm, hmembers⟩ := List.forall_mem_cons.mp h
      have hmember : ∀ rest, r.member seen (m.tokens ++ rest) =
          (r.memberAnswer seen m).map (·, rest) := member_of_settles hm
      rw [List.map_cons, separated, List.append_assoc, readAll]
      cases hanswer : r.memberAnswer seen m with
      | error p =>
          rw [hanswer] at hmember
          exact members_of_error (hmember _)
      | ok found =>
          rw [hanswer] at hmember
          cases members with
          | nil => exact members_of_last (hmember _)
          | cons m' members =>
              rw [List.map_cons, List.flatMap_cons, List.append_assoc, List.cons_append,
                members_of_comma (hmember _)]
              simpa [separated] using ih (List.cons_ne_nil _ _) hmembers

theorem object_of_settles {members : List Part}
    (h : ∀ m ∈ members, r.Settles m) (rest : List Token) :
    r.object (separated (members.map Part.tokens) ++ .closeObject :: rest) =
      (r.readAll [] r.blank members).map (·, rest) := by
  cases members with
  | nil => rfl
  | cons m members =>
      rw [object]
      · exact members_of_settles (List.cons_ne_nil m members) h rest
      · intro rest' heq
        cases heq

/-- A record that is written as an object is what its members do, one after the other. -/
theorem readText_object {text : Bytes} {members : List Part}
    (htext : Spells text (objectTokens members)) (h : ∀ m ∈ members, r.Settles m) :
    r.reader.readText text = r.readAll [] r.blank members := by
  have hrun : r.reader.run (objectTokens members) = (r.readAll [] r.blank members).map (·, []) :=
    object_of_settles h []
  rw [Reader.readText, htext.tokens_eq, hrun]
  cases r.readAll [] r.blank members <;> rfl

/-! ### The fields themselves as members -/

theorem field?_of_mem (hnames : (r.fields.map Field.name).Nodup) (hf : f ∈ r.fields) :
    r.field? f.name = some f := by
  obtain ⟨before, fields, hfields⟩ := List.append_of_mem hf
  rw [field?, List.find?_eq_some_iff_append]
  refine ⟨decide_eq_true rfl, before, fields, hfields, fun g hg => ?_⟩
  rw [hfields, List.map_append, List.nodup_append] at hnames
  have hne : g.name ≠ f.name :=
    hnames.2.2 _ (List.mem_map_of_mem hg) _ List.mem_cons_self
  simpa using hne

/-- The field at hand is found under its name, and the name is new. -/
theorem memberReader_of_fields (hnames : (r.fields.map Field.name).Nodup)
    (hfields : r.fields = before ++ f :: fields) :
    r.memberReader (before.map Field.name).reverse f.name = .ok f.reader := by
  have hf : f ∈ r.fields := by
    rw [hfields]
    exact List.mem_append_right _ List.mem_cons_self
  rw [memberReader, field?_of_mem hnames hf]
  rw [hfields, List.map_append, List.nodup_append] at hnames
  refine if_neg fun hmem => ?_
  exact hnames.2.2 _ (List.mem_reverse.mp hmem) _ List.mem_cons_self rfl

theorem readAll_of_fills (hnames : (r.fields.map Field.name).Nodup)
    (hfields : r.fields = before ++ fields) (h : Fills fields tss a b) :
    r.readAll (before.map Field.name).reverse a
      (List.zipWith Part.named (fields.map Field.name) tss) = .ok b := by
  induction h generalizing before with
  | nil => rfl
  | @cons f fields ts tss change a b hf hrest ih =>
      have hfields' : r.fields = (before ++ [f]) ++ fields := by
        rw [List.append_assoc]
        exact hfields
      have hmore := ih hfields'
      rw [List.map_append, List.reverse_append] at hmore
      rw [List.map_cons, List.zipWith_cons_cons, readAll, Part.named, memberAnswer,
        memberReader_of_fields hnames hfields]
      dsimp only
      rw [hf.answer_eq]
      exact hmore

theorem settles_of_fills (hnames : (r.fields.map Field.name).Nodup)
    (hfields : ∀ f ∈ fields, f ∈ r.fields) (h : Fills fields tss a b) :
    ∀ m ∈ List.zipWith Part.named (fields.map Field.name) tss, r.Settles m := by
  induction h with
  | nil => simp
  | @cons f fields ts tss change a b hf hrest ih =>
      obtain ⟨hmem, hfields⟩ := List.forall_mem_cons.mp hfields
      rw [List.map_cons, List.zipWith_cons_cons, List.forall_mem_cons]
      refine ⟨?_, ih hfields⟩
      rintro seen name reader ⟨⟩ hreader
      rw [memberReader, field?_of_mem hnames hmem] at hreader
      dsimp only at hreader
      split at hreader
      · cases hreader
      · cases hreader
        exact hf.settles

theorem readText_fields (hnames : (r.fields.map Field.name).Nodup)
    (h : Fills r.fields tss r.blank b) {text : Bytes}
    (htext : Spells text (objectTokens
      (List.zipWith Part.named (r.fields.map Field.name) tss))) :
    r.reader.readText text = .ok b := by
  have hfields : r.fields = [] ++ r.fields := rfl
  rw [readText_object htext (settles_of_fills hnames (fun _ hf => hf) h)]
  exact readAll_of_fills hnames hfields h

end Record

end PagedScan.Json
