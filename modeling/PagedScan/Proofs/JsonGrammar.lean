import PagedScan.Proofs.WholeValues

/-!
# The grammar of JSON

Which texts are JSON, said of the bytes alone: scalars, lists and objects, with blanks
around any of them and in front of every mark. Numerals may be of any size and literals
may hold halves of pairs, since both are well-formed whether they mean something or
not. A text of the grammar spells the tokens of one value, so what a reader makes of an
object follows from its members: `Object.readText_eq` has no bytes and no marks left in
it, only the name and the tokens of each member, in order.

The blanks in front of a name belong to the member and those around a value to the
value. So an object without members has blanks of its own, and no other blanks are left
that the grammar would have to name.
-/

namespace PagedScan.Json

/-! ## Texts -/

/-- A member of an object as it is written. The name is what stands between its quotes. -/
structure Member where
  before : Bytes
  name : Bytes
  behind : Bytes
  value : Bytes

/-- A list as it is written, with `inner` behind the opening bracket. -/
def listText (inner : Bytes) (items : List Bytes) : Bytes :=
  Ascii.openBracket :: ((inner ++ Query.commaSeparated items) ++ [Ascii.closeBracket])

namespace Member

/-- The text of the member. -/
def text (m : Member) : Bytes :=
  m.before ++ Ascii.quote :: (m.name ++ Ascii.quote :: (m.behind ++ Ascii.colon :: m.value))

/-- What is written around the name is blank, and the name is a literal. -/
structure HasName (m : Member) : Prop where
  before : IsBlank m.before
  literal : ∃ pieces, StringLiteral.Consists m.name pieces
  behind : IsBlank m.behind

/-- The member goes by this name. -/
def IsNamed (m : Member) (name : String) : Prop :=
  StringLiteral.Denotes m.name name.toList

end Member

/-- Members between braces, with `inner` behind the opening one. -/
def membersText (inner : Bytes) (members : List Member) : Bytes :=
  Ascii.openBrace ::
    ((inner ++ Query.commaSeparated (members.map Member.text)) ++ [Ascii.closeBrace])

/-- The texts of values, with blanks around them. -/
inductive IsElement : Bytes → Prop
  | null : IsElement (Bytes.ofText "null")
  | boolean (b : Bool) : IsElement (Query.renderBool b)
  | numeral {text : Bytes} {n : Number} (h : Number.IsNumeral text n) : IsElement text
  | literal {body : Bytes} {pieces : List StringLiteral.Piece}
      (h : StringLiteral.Consists body pieces) :
      IsElement (Ascii.quote :: (body ++ [Ascii.quote]))
  | list {inner : Bytes} {items : List Bytes} (hinner : IsBlank inner)
      (hitems : ∀ item ∈ items, IsElement item) : IsElement (listText inner items)
  | object {inner : Bytes} {members : List Member} (hinner : IsBlank inner)
      (hnamed : ∀ m ∈ members, m.HasName) (hvalues : ∀ m ∈ members, IsElement m.value) :
      IsElement (membersText inner members)
  | padded {before text behind : Bytes} (hbefore : IsBlank before) (h : IsElement text)
      (hbehind : IsBlank behind) : IsElement (before ++ (text ++ behind))

/-- A member is written as it must be. -/
structure Member.IsWritten (m : Member) : Prop extends m.HasName where
  element : IsElement m.value

/-- An object as a whole text. -/
structure Object where
  before : Bytes
  inner : Bytes
  members : List Member
  behind : Bytes

namespace Object

/-- The text of the object. -/
def text (o : Object) : Bytes :=
  o.before ++ (membersText o.inner o.members ++ o.behind)

/-- The object is written as it must be. -/
structure IsWritten (o : Object) : Prop where
  before : IsBlank o.before
  inner : IsBlank o.inner
  members : ∀ m ∈ o.members, m.IsWritten
  behind : IsBlank o.behind

end Object

/-- A member without blanks, with a name that is written as it is. -/
def Member.plain (name : String) (value : Bytes) : Member :=
  ⟨[], Bytes.ofText name, [], value⟩

/-- An object without blanks. -/
def Object.compact (members : List Member) : Object :=
  ⟨[], [], members, []⟩

theorem Member.IsWritten.plain {name : String} {value : Bytes} (hname : IsPlain name)
    (h : IsElement value) : (Member.plain name value).IsWritten :=
  ⟨⟨.nil, ⟨_, .of_plain hname⟩, .nil⟩, h⟩

theorem Object.IsWritten.compact {members : List Member} (h : ∀ m ∈ members, m.IsWritten) :
    (Object.compact members).IsWritten :=
  ⟨.nil, .nil, h, .nil⟩

/-! ## Their tokens -/

namespace Member

/-- The text that the name denotes, if it denotes any. -/
def name? (m : Member) : Option String :=
  (StringLiteral.scan (m.name ++ [Ascii.quote])).bind fun found =>
    StringLiteral.text? found.1

/-- The member as it is read: its name, and the tokens of its value. -/
def part (m : Member) : Part :=
  ⟨m.name?, tokens m.value⟩

theorem name?_of_consists {m : Member} {pieces : List StringLiteral.Piece}
    (h : StringLiteral.Consists m.name pieces) : m.name? = StringLiteral.text? pieces := by
  rw [name?, StringLiteral.scan_of_consists h]
  rfl

/-- What a member is read as is the name it goes by. -/
theorem HasName.name?_eq_some_iff {m : Member} (h : m.HasName) {name : String} :
    m.name? = some name ↔ m.IsNamed name := by
  obtain ⟨pieces, hpieces⟩ := h.literal
  rw [name?_of_consists hpieces]
  exact StringLiteral.text?_eq_some_iff hpieces

theorem HasName.part_eq {m : Member} (h : m.HasName) {name : String} (hname : m.IsNamed name) :
    m.part = ⟨some name, tokens m.value⟩ := by
  rw [part, h.name?_eq_some_iff.mpr hname]

theorem name?_plain {name : String} (hname : IsPlain name) (value : Bytes) :
    (plain name value).name? = some name := by
  have hbody : StringLiteral.Consists (plain name value).name _ := .of_plain hname
  rw [name?_of_consists hbody, StringLiteral.text?_map_byte]
  exact Bytes.text?_ofText name

theorem isNamed_plain_iff {name name' : String} (hname : IsPlain name) {value : Bytes} :
    (plain name value).IsNamed name' ↔ name = name' := by
  have hbody : StringLiteral.Consists (plain name value).name _ := .of_plain hname
  have hplain : StringLiteral.text? _ = some name :=
    (name?_of_consists hbody).symm.trans (name?_plain hname value)
  rw [IsNamed, ← StringLiteral.text?_eq_some_iff hbody, hplain, Option.some.injEq]

theorem part_plain {name : String} (hname : IsPlain name) {value : Bytes} {ts : List Token}
    (h : Spells value ts) : (plain name value).part = ⟨some name, ts⟩ := by
  have hvalue : tokens (plain name value).value = ts := h.tokens_eq
  rw [part, name?_plain hname, hvalue]

theorem HasName.spells {m : Member} (h : m.HasName) {ts : List Token} (hvalue : Spells m.value ts) :
    Spells m.text (Part.tokens ⟨m.name?, ts⟩) := by
  obtain ⟨pieces, hpieces⟩ := h.literal
  rw [name?_of_consists hpieces]
  exact .blank_append h.before (.member hpieces h.behind hvalue)

end Member

theorem Spells.listText {inner : Bytes} {items : List Bytes} {tss : List (List Token)}
    (hinner : IsBlank inner) (h : List.Forall₂ Spells items tss) :
    Spells (listText inner items) (listTokens tss) :=
  .between (tokens_punctuation rfl rfl) (.blank_append hinner (.commaSeparated h))
    (tokens_punctuation rfl rfl) rfl

theorem Spells.membersText {inner : Bytes} {members : List Member} (hinner : IsBlank inner)
    (hnamed : ∀ m ∈ members, m.HasName) (hvalues : ∀ m ∈ members, Spells m.value (tokens m.value)) :
    Spells (membersText inner members) (objectTokens (members.map Member.part)) := by
  refine .between (tokens_punctuation rfl rfl) (.blank_append hinner (.commaSeparated ?_))
    (tokens_punctuation rfl rfl) rfl
  rw [List.map_map, List.forall₂_map_left_iff, List.forall₂_map_right_iff, List.forall₂_same]
  exact fun m hm => (hnamed m hm).spells (hvalues m hm)

/-- A text of the grammar is read as the tokens of one value, whatever is behind it. -/
theorem IsElement.spells_value {text : Bytes} (h : IsElement text) :
    Spells text (tokens text) ∧ IsValue (tokens text) := by
  have of_spells : ∀ {text : Bytes} {ts : List Token}, Spells text ts → IsValue ts →
      Spells text (tokens text) ∧ IsValue (tokens text) := by
    intro text ts hspells hvalue
    rw [hspells.tokens_eq]
    exact ⟨hspells, hvalue⟩
  induction h with
  | null => exact of_spells .null (.scalar rfl)
  | boolean b => exact of_spells (.boolean b) (.scalar rfl)
  | numeral h => exact of_spells (.numeral h) (.scalar rfl)
  | literal h => exact of_spells (.literal h) (.scalar rfl)
  | @list inner items hinner _ ih =>
      have hitems : List.Forall₂ Spells items (items.map tokens) := by
        rw [List.forall₂_map_right_iff, List.forall₂_same]
        exact fun item hitem => (ih item hitem).1
      refine of_spells (.listText hinner hitems) (.list fun ts hts => ?_)
      obtain ⟨item, hitem, rfl⟩ := List.mem_map.mp hts
      exact (ih item hitem).2
  | @object inner members hinner hnamed _ ih =>
      refine of_spells (.membersText hinner hnamed fun m hm => (ih m hm).1) (.object ?_)
      rintro part hpart
      obtain ⟨m, hm, rfl⟩ := List.mem_map.mp hpart
      exact (ih m hm).2
  | padded hbefore _ hbehind ih =>
      exact of_spells (.blank_append hbefore (ih.1.append_blank hbehind)) ih.2

theorem tokens_listText {inner : Bytes} {items : List Bytes} (hinner : IsBlank inner)
    (hitems : ∀ item ∈ items, IsElement item) :
    tokens (listText inner items) = listTokens (items.map tokens) := by
  refine (Spells.listText hinner ?_).tokens_eq
  rw [List.forall₂_map_right_iff, List.forall₂_same]
  exact fun item hitem => (hitems item hitem).spells_value.1

theorem tokens_membersText {inner : Bytes} {members : List Member} (hinner : IsBlank inner)
    (hnamed : ∀ m ∈ members, m.HasName) (hvalues : ∀ m ∈ members, IsElement m.value) :
    tokens (membersText inner members) = objectTokens (members.map Member.part) :=
  (Spells.membersText hinner hnamed fun m hm => (hvalues m hm).spells_value.1).tokens_eq

theorem IsElement.tokens_padded {before text behind : Bytes} (h : IsElement text)
    (hbefore : IsBlank before) (hbehind : IsBlank behind) :
    tokens (before ++ (text ++ behind)) = tokens text :=
  (Spells.blank_append hbefore (h.spells_value.1.append_blank hbehind)).tokens_eq

/-! ## Reading an object -/

namespace Object

variable {α : Type} {r : Record α} {o : Object}

theorem IsWritten.spells (h : o.IsWritten) :
    Spells o.text (objectTokens (o.members.map Member.part)) := by
  have hmembers : Spells (membersText o.inner o.members)
      (objectTokens (o.members.map Member.part)) :=
    .membersText h.inner (fun m hm => (h.members m hm).toHasName)
      fun m hm => (h.members m hm).element.spells_value.1
  exact .blank_append h.before (hmembers.append_blank h.behind)

/-- What a record reads from an object is what the members do one after the other. -/
theorem IsWritten.readText_eq (h : o.IsWritten)
    (hfields : ∀ f ∈ r.fields, ∀ ts, IsValue ts → f.reader.Settles ts) :
    r.reader.readText o.text = r.readAll [] r.blank (o.members.map Member.part) := by
  refine Record.readText_object h.spells fun part hpart => ?_
  obtain ⟨m, hm, rfl⟩ := List.mem_map.mp hpart
  exact Record.settles_of_isValue hfields (h.members m hm).element.spells_value.2

end Object

end PagedScan.Json
