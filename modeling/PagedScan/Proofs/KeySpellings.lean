import PagedScan.Proofs.MemberOrder

/-!
# The two ways to give a key

A key may be given as a string, which stands for its bytes in UTF-8, or as the list of
its bytes. The two never meet while they are read: one is a single token that was put
together long before, the other is taken byte by byte by the reader of numbers. They are
compared at the key itself. On the side of strings the work is done by the grammar of
literals, which says what text a literal denotes however its characters are written. On
the side of lists it has to be seen that a byte can be written as its digits and in no
other way, so the elements are told apart by the grammar: whatever is no numeral is
refused by its first token, and of the numerals only one that is digits alone means an
integer that is not negative.
-/

namespace PagedScan

open Json

/-! ## Bytes as numerals -/

/-- A byte as it may stand in a list: digits alone, with blanks around them. -/
inductive IsByteLiteral : Bytes → UInt8 → Prop
  | digits {ds : List Nat} {b : UInt8} (h : Number.IsWhole ds)
      (hb : Decimal.ofDigits ds = b.toNat) : IsByteLiteral (ds.map Decimal.spell) b
  | padded {before text behind : Bytes} {b : UInt8} (hbefore : IsBlank before)
      (h : IsByteLiteral text b) (hbehind : IsBlank behind) :
      IsByteLiteral (before ++ (text ++ behind)) b

theorem Json.Reader.integer_answer_iff {expected : String} {low high z : Int} {n : Number} :
    (integer expected low high).answer [.number n] = .ok z ↔
      n.value = .integer z ∧ low ≤ z ∧ z ≤ high := by
  rw [integer, answer_scalar]
  dsimp only
  cases n.value with
  | integer z' =>
      dsimp only
      by_cases hrange : low ≤ z' ∧ z' ≤ high
      · rw [if_pos hrange]
        constructor
        · rintro ⟨⟩
          exact ⟨rfl, hrange⟩
        · rintro ⟨⟨⟩, -⟩
          rfl
      · rw [if_neg hrange]
        constructor
        · rintro ⟨⟩
        · rintro ⟨⟨⟩, h⟩
          exact absurd h hrange
  | fractional | tooLarge => simp

theorem Json.Number.isNumeral_digits {ds : List Nat} (h : IsWhole ds) :
    IsNumeral (ds.map Decimal.spell) ⟨false, ds, none, none⟩ := by
  have hnumeral := IsNumeral.unsigned h .none .none
  rwa [List.append_nil, List.append_nil] at hnumeral

namespace IsByteLiteral

variable {text : Bytes} {b : UInt8}

theorem isElement (h : IsByteLiteral text b) : IsElement text := by
  induction h with
  | digits h => exact .numeral (Number.isNumeral_digits h)
  | padded hbefore _ hbehind ih => exact .padded hbefore ih hbehind

theorem answer_eq (h : IsByteLiteral text b) : Reader.byte.answer (tokens text) = .ok b := by
  induction h with
  | @digits ds b h hb =>
      have hlt := b.toNat_lt
      have hvalue : Number.value ⟨false, ds, none, none⟩ = .integer b.toNat := by
        rw [← hb]
        exact Number.value_digits (by rw [UInt64.size]; omega)
      have hinteger : (Reader.integer "u8" 0 255).answer [.number ⟨false, ds, none, none⟩] =
          .ok b.toNat := Reader.integer_answer_iff.mpr ⟨hvalue, by omega⟩
      rw [(Spells.numeral (Number.isNumeral_digits h)).tokens_eq, Reader.byte, Reader.answer_map,
        hinteger]
      exact congrArg Except.ok UInt8.ofNat_toNat
  | padded hbefore h hbehind ih => rw [h.isElement.tokens_padded hbefore hbehind, ih]

/-- No other element of a list is taken for a byte. -/
theorem of_answer (h : IsElement text) (hanswer : Reader.byte.answer (tokens text) = .ok b) :
    IsByteLiteral text b := by
  induction h with
  | null => rw [Spells.null.tokens_eq] at hanswer; cases hanswer
  | boolean b => rw [(Spells.boolean b).tokens_eq] at hanswer; cases hanswer
  | numeral h =>
      -- The only element whose first token does not decide by itself.
      rw [(Spells.numeral h).tokens_eq] at hanswer
      obtain ⟨z, hinteger, rfl⟩ := Reader.of_answer_map hanswer
      obtain ⟨hvalue, hlow, hhigh⟩ := Reader.integer_answer_iff.mp hinteger
      obtain ⟨ds, hds, rfl, rfl⟩ := h.eq_digits hvalue hlow
      refine .digits hds ?_
      rw [Int.toNat_natCast, UInt8.toNat_ofNat', Nat.mod_eq_of_lt (by omega)]
  | literal h => rw [(Spells.literal h).tokens_eq] at hanswer; cases hanswer
  | list hinner hitems => rw [tokens_listText hinner hitems] at hanswer; cases hanswer
  | object hinner hnamed hvalues =>
      rw [tokens_membersText hinner hnamed hvalues] at hanswer
      cases hanswer
  | padded hbefore h hbehind ih =>
      rw [h.tokens_padded hbefore hbehind] at hanswer
      exact .padded hbefore (ih hanswer) hbehind

end IsByteLiteral

/-- The items of a list are taken for bytes if each of them is one, and not otherwise. -/
theorem mapM_answer_eq_ok_iff {items : List Bytes} (h : ∀ item ∈ items, IsElement item)
    {bytes : Bytes} :
    (items.map tokens).mapM Reader.byte.answer = .ok bytes ↔
      List.Forall₂ IsByteLiteral items bytes := by
  induction items generalizing bytes with
  | nil =>
      rw [List.map_nil, List.mapM_nil, List.forall₂_nil_left_iff]
      exact ⟨fun heq => (Except.ok.inj heq).symm, fun heq => congrArg Except.ok heq.symm⟩
  | cons item items ih =>
      obtain ⟨hitem, hitems⟩ := List.forall_mem_cons.mp h
      rw [List.map_cons, List.mapM_cons, List.forall₂_cons_left_iff]
      constructor
      · intro heq
        cases hb : Reader.byte.answer (tokens item) with
        | error p => rw [hb] at heq; cases heq
        | ok b =>
            rw [hb] at heq
            cases hmore : (items.map tokens).mapM Reader.byte.answer with
            | error p => rw [hmore] at heq; cases heq
            | ok bytes' =>
                rw [hmore] at heq
                cases heq
                exact ⟨b, bytes', .of_answer hitem hb, (ih hitems).mp hmore, rfl⟩
      · rintro ⟨b, bytes', hb, hbytes', rfl⟩
        rw [hb.answer_eq, (ih hitems).mpr hbytes']
        rfl

/-! ## Keys -/

/-- The literals of a text, with blanks around them. -/
inductive IsTextLiteral : Bytes → String → Prop
  | literal {body : Bytes} {text : String} (h : StringLiteral.Denotes body text.toList) :
      IsTextLiteral (Ascii.quote :: (body ++ [Ascii.quote])) text
  | padded {before value behind : Bytes} {text : String} (hbefore : IsBlank before)
      (h : IsTextLiteral value text) (hbehind : IsBlank behind) :
      IsTextLiteral (before ++ (value ++ behind)) text

theorem IsTextLiteral.tokens_eq {value : Bytes} {text : String} (h : IsTextLiteral value text) :
    IsElement value ∧ tokens value = [.string (some text)] := by
  induction h with
  | @literal body text h =>
      obtain ⟨pieces, hpieces, htext⟩ := StringLiteral.exists_text_of_denotes h
      rw [(Spells.literal hpieces).tokens_eq, htext]
      exact ⟨.literal hpieces, rfl⟩
  | padded hbefore _ hbehind ih =>
      rw [ih.1.tokens_padded hbefore hbehind]
      exact ⟨.padded hbefore ih.1 hbehind, ih.2⟩

/-- The lists of these items, with blanks around them. -/
inductive IsListOf : Bytes → List Bytes → Prop
  | list {inner : Bytes} {items : List Bytes} (hinner : IsBlank inner)
      (hitems : ∀ item ∈ items, IsElement item) : IsListOf (listText inner items) items
  | padded {before value behind : Bytes} {items : List Bytes} (hbefore : IsBlank before)
      (h : IsListOf value items) (hbehind : IsBlank behind) :
      IsListOf (before ++ (value ++ behind)) items

theorem IsListOf.isElement {value : Bytes} {items : List Bytes} (h : IsListOf value items) :
    IsElement value := by
  induction h with
  | list hinner hitems => exact .list hinner hitems
  | padded hbefore _ hbehind ih => exact .padded hbefore ih hbehind

namespace Query

variable {value : Bytes} {text : String} {items : List Bytes}

theorem key_answer_literal (h : IsTextLiteral value text) :
    IsElement value ∧ key.answer (tokens value) = .ok (some (Bytes.ofText text)) := by
  obtain ⟨helement, htokens⟩ := h.tokens_eq
  rw [htokens]
  exact ⟨helement, rfl⟩

theorem key_answer_list_iff (h : IsListOf value items) {k : Option Bytes} :
    key.answer (tokens value) = .ok k ↔
      ∃ bytes, List.Forall₂ IsByteLiteral items bytes ∧ k = some bytes := by
  induction h with
  | @list inner items hinner hitems =>
      have hvalues : ∀ ts ∈ items.map tokens, IsValue ts := by
        intro ts hts
        obtain ⟨item, hitem, rfl⟩ := List.mem_map.mp hts
        exact (hitems item hitem).spells_value.2
      rw [tokens_listText hinner hitems, key_answer_listTokens hvalues]
      simp only [← mapM_answer_eq_ok_iff hitems]
      cases (items.map tokens).mapM Reader.byte.answer with
      | error p => simp [Except.map]
      | ok bytes => simp [Except.map, eq_comm]
  | padded hbefore h hbehind ih =>
      rw [h.isElement.tokens_padded hbefore hbehind]
      exact ih

/-- The fields that hold a key, and how one is put into a query. -/
def keyFields : List (String × (Option Bytes → Query → Query)) :=
  [ ("from", fun start q => { q with start := start }),
    ("prefix", fun stem q => { q with stem := stem }),
    ("end", fun stop q => { q with stop := stop }) ]

theorem field?_of_mem_keyFields {name : String} {put : Option Bytes → Query → Query}
    (h : (name, put) ∈ keyFields) : record.field? name = some ⟨name, key.map put⟩ := by
  have hall : ∀ p ∈ keyFields, record.field? p.1 = some ⟨p.1, key.map p.2⟩ := by
    simp only [keyFields, List.forall_mem_cons, List.not_mem_nil, false_implies, implies_true,
      and_true]
    exact ⟨rfl, rfl, rfl⟩
  exact hall _ h

theorem isListOf_renderKey (bytes : Bytes) :
    IsListOf (renderKey (some bytes)) (bytes.map fun b => Decimal.ofNat b.toNat) ∧
      List.Forall₂ IsByteLiteral (bytes.map fun b => Decimal.ofNat b.toNat) bytes := by
  have hbytes : ∀ b : UInt8, IsByteLiteral (Decimal.ofNat b.toNat) b := fun b =>
    .digits (Number.isWhole_digits b.toNat) (Decimal.ofDigits_digits b.toNat)
  constructor
  · refine .list .nil fun item hitem => ?_
    obtain ⟨b, -, rfl⟩ := List.mem_map.mp hitem
    exact (hbytes b).isElement
  · rw [List.forall₂_map_left_iff, List.forall₂_same]
    exact fun b _ => hbytes b

section Members

variable {name text : String} {put : Option Bytes → Query → Query} {o o' : Object}
  {front back : List Member} {m m' : Member} {items : List Bytes} {q q' : Query}

theorem parse_literal_eq (hfield : (name, put) ∈ keyFields) (ho : o.IsWritten)
    (ho' : o'.IsWritten) (hmembers : o.members = front ++ m :: back)
    (hmembers' : o'.members = front ++ m' :: back) (hname : m.IsNamed name)
    (hname' : m'.IsNamed name) (hliteral : IsTextLiteral m.value text)
    (hlist : IsListOf m'.value items)
    (hbytes : List.Forall₂ IsByteLiteral items (Bytes.ofText text)) :
    parse o.text = parse o'.text := by
  have hm : m.IsWritten := ho.members m (by simp [hmembers])
  have hm' : m'.IsWritten := ho'.members m' (by simp [hmembers'])
  have hkey : key.answer m.part.value = key.answer m'.part.value :=
    calc key.answer m.part.value
      _ = .ok (some (Bytes.ofText text)) := (key_answer_literal hliteral).2
      _ = key.answer m'.part.value := ((key_answer_list_iff hlist).mpr ⟨_, hbytes, rfl⟩).symm
  have hanswer : (key.map put).answer m.part.value = (key.map put).answer m'.part.value := by
    rw [Reader.answer_map, Reader.answer_map, hkey]
  rw [parse, parse, ho.readText_eq fields_settle, ho'.readText_eq fields_settle, hmembers,
    hmembers', List.map_append, List.map_append, List.map_cons, List.map_cons]
  exact Record.readAll_replace (field?_of_mem_keyFields hfield) (hm.name?_eq_some_iff.mpr hname)
    (hm'.name?_eq_some_iff.mpr hname') hanswer

theorem parse_list_iff (hfield : (name, put) ∈ keyFields) (ho : o.IsWritten)
    (ho' : o'.IsWritten) (hmembers : o.members = front ++ back)
    (hmembers' : o'.members = front ++ m :: back) (hname : m.IsNamed name)
    (hnew : ∀ m' ∈ front ++ back, ¬ m'.IsNamed name) (hlist : IsListOf m.value items)
    (hread : parse o.text = .ok q) :
    parse o'.text = .ok q' ↔
      ∃ bytes, List.Forall₂ IsByteLiteral items bytes ∧ q' = put (some bytes) q := by
  have hm : m.IsWritten := ho'.members m (by simp [hmembers'])
  have hothers : ∀ part ∈ front.map Member.part ++ back.map Member.part,
      part.name ≠ some name := by
    rw [← List.map_append]
    intro part hpart heq
    obtain ⟨m', hm', rfl⟩ := List.mem_map.mp hpart
    have hwritten : m'.IsWritten := ho.members m' (by rwa [hmembers])
    exact hnew m' hm' (hwritten.name?_eq_some_iff.mp heq)
  rw [parse, ho.readText_eq fields_settle, hmembers, List.map_append] at hread
  rw [parse, ho'.readText_eq fields_settle, hmembers', List.map_append, List.map_cons,
    Record.readAll_insert_iff fields_commute (field?_of_mem_keyFields hfield)
      (hm.name?_eq_some_iff.mpr hname) hothers hread]
  constructor
  · rintro ⟨change, hchange, rfl⟩
    obtain ⟨k, hk, rfl⟩ := Reader.of_answer_map hchange
    obtain ⟨bytes, hbytes, rfl⟩ := (key_answer_list_iff hlist).mp hk
    exact ⟨bytes, hbytes, rfl⟩
  · rintro ⟨bytes, hbytes, rfl⟩
    have hk : key.answer m.part.value = .ok (some bytes) :=
      (key_answer_list_iff hlist).mpr ⟨bytes, hbytes, rfl⟩
    refine ⟨put (some bytes), ?_, rfl⟩
    rw [Reader.answer_map, hk]
    rfl

end Members

/-- A key reads alike from any literal for a text and from the list of the bytes of that
text in UTF-8, wherever its member stands and whatever the others are. And where a field
that holds a key was not given, a list may be put in for it exactly if each item is a byte
written in digits alone; then the query has these bytes, in order, for that key, and
everything else is as it was. -/
theorem key_spellings :
    (∀ (name text : String) (put : Option Bytes → Query → Query) (o o' : Object)
      (front back : List Member) (m m' : Member) (items : List Bytes),
      (name, put) ∈ keyFields → o.IsWritten → o'.IsWritten →
      o.members = front ++ m :: back → o'.members = front ++ m' :: back →
      m.IsNamed name → m'.IsNamed name → IsTextLiteral m.value text →
      IsListOf m'.value items → List.Forall₂ IsByteLiteral items (Bytes.ofText text) →
      parse o.text = parse o'.text) ∧
    ∀ (name : String) (put : Option Bytes → Query → Query) (o o' : Object)
      (front back : List Member) (m : Member) (items : List Bytes) (q : Query),
      (name, put) ∈ keyFields → o.IsWritten → o'.IsWritten →
      o.members = front ++ back → o'.members = front ++ m :: back →
      m.IsNamed name → (∀ m' ∈ front ++ back, ¬ m'.IsNamed name) →
      IsListOf m.value items → parse o.text = .ok q →
      ∀ q', parse o'.text = .ok q' ↔
        ∃ bytes, List.Forall₂ IsByteLiteral items bytes ∧ q' = put (some bytes) q := by
  constructor
  · intro name text put o o' front back m m' items hfield ho ho' hmembers hmembers' hname hname'
      hliteral hlist hbytes
    exact parse_literal_eq hfield ho ho' hmembers hmembers' hname hname' hliteral hlist hbytes
  · intro name put o o' front back m items q hfield ho ho' hmembers hmembers' hname hnew hlist
      hread q'
    exact parse_list_iff hfield ho ho' hmembers hmembers' hname hnew hlist hread

/-- A clef, which is one character, two code units and four bytes. -/
theorem key_spellings_of_clef :
    parse (Bytes.ofText "\x7b\"from\":\"\\ud834\\udd1e\"\x7d") =
      .ok { all with start := some [0xF0, 0x9D, 0x84, 0x9E] } := by
  have hhigh : StringLiteral.IsUnit (Bytes.ofText "d834") 0xD834 :=
    .digits (a := 'd') (b := '8') (c := '3') (d := '4') (w := 13) (x := 8) (y := 3) (z := 4)
      (by decide) (by decide) (by decide) (by decide)
  have hlow : StringLiteral.IsUnit (Bytes.ofText "dd1e") 0xDD1E :=
    .digits (a := 'd') (b := 'd') (c := '1') (d := 'e') (w := 13) (x := 13) (y := 1) (z := 14)
      (by decide) (by decide) (by decide) (by decide)
  have hdenotes : StringLiteral.Denotes (StringLiteral.unitEscape (Bytes.ofText "d834") ++
      StringLiteral.unitEscape (Bytes.ofText "dd1e") ++ []) "𝄞".toList :=
    .cons (.pair hhigh hlow (by decide) (by decide) rfl) .nil
  have hliteral : IsTextLiteral (Bytes.ofText "\"\\ud834\\udd1e\"") "𝄞" := .literal hdenotes
  obtain ⟨hlist, hbytes⟩ := isListOf_renderKey (Bytes.ofText "𝄞")
  have hempty : (Object.compact []).IsWritten := .compact (by simp)
  have hgiven : ∀ {value : Bytes}, IsElement value →
      (Object.compact [.plain "from" value]).IsWritten := fun h =>
    .compact (by simpa using Member.IsWritten.plain (by decide) h)
  have hname : ∀ value, (Member.plain "from" value).IsNamed "from" := fun _ =>
    (Member.isNamed_plain_iff (by decide)).mpr rfl
  obtain ⟨hsame, hput⟩ := key_spellings
  have hread : parse (Object.compact []).text = .ok all := by
    rw [parse, hempty.readText_eq fields_settle]
    rfl
  calc parse (Bytes.ofText "\x7b\"from\":\"\\ud834\\udd1e\"\x7d")
    _ = parse (Object.compact [.plain "from" (renderKey (some (Bytes.ofText "𝄞")))]).text :=
        hsame "from" "𝄞" _ (.compact [.plain "from" _]) _ [] [] _ _ _ List.mem_cons_self
          (hgiven (key_answer_literal hliteral).1) (hgiven hlist.isElement) rfl rfl (hname _)
          (hname _) hliteral hlist hbytes
    _ = .ok { all with start := some [0xF0, 0x9D, 0x84, 0x9E] } :=
        (hput "from" _ _ _ [] [] _ _ _ List.mem_cons_self hempty (hgiven hlist.isElement) rfl rfl
          (hname _) (by simp) hlist hread _).mpr ⟨_, hbytes, rfl⟩

end Query

end PagedScan
