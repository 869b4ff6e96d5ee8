import Mathlib.Data.List.Forall2
import PagedScan.Proofs.LiteralGrammar
import PagedScan.Proofs.Numerals
import PagedScan.Query.Json

/-!
# Texts that spell tokens

A reader never looks at bytes, only at tokens, so what it makes of a written
text splits in two: which tokens the text spells, and what the reader makes of
these. This module is the first half. Texts are put together from small ones, and
`Spells` is said of the parts so that it holds of the whole: with any bytes behind
a text, its tokens come first and theirs follow. The one thing to mind is a
numeral, which must not be followed by more of it. In a written value it is not,
because what follows is a comma or a bracket.
-/

namespace PagedScan.Json

/-- A text that is written between quotes as it is. -/
def IsPlain (text : String) : Prop :=
  ∀ b ∈ Bytes.ofText text, StringLiteral.isPlain b = true

instance (text : String) : Decidable (IsPlain text) :=
  decidable_of_iff ((Bytes.ofText text).all StringLiteral.isPlain = true) List.all_eq_true

/-! ## Texts and their tokens -/

/-- A text is read as these tokens, whatever is behind it, unless that goes on
with a numeral. -/
def Spells (text : Bytes) (ts : List Token) : Prop :=
  ∀ rest, Number.Ends rest → tokens (text ++ rest) = ts ++ tokens rest

theorem tokens_nil : tokens [] = [] := by
  rw [tokens]

theorem tokens_of_scan {b : UInt8} {rest rest' : Bytes} {t : Token}
    (hblank : Ascii.isBlank b = false) (h : Token.scan b rest = some (t, rest')) :
    tokens (b :: rest) = t :: tokens rest' := by
  rw [tokens, if_neg (by rw [hblank]; exact Bool.false_ne_true)]
  split
  · next hscan => rw [h] at hscan; cases hscan; rfl
  · next hscan => rw [h] at hscan; cases hscan

theorem tokens_punctuation {b : UInt8} {t : Token} (h : Token.punctuation? b = some t)
    (hblank : Ascii.isBlank b = false) (rest : Bytes) : tokens (b :: rest) = t :: tokens rest := by
  refine tokens_of_scan hblank ?_
  rw [Token.scan, h]

theorem tokens_comma (rest : Bytes) : tokens (Ascii.comma :: rest) = .comma :: tokens rest :=
  tokens_punctuation rfl rfl rest

/-- Nothing but blanks. -/
def IsBlank (bytes : Bytes) : Prop :=
  ∀ b ∈ bytes, Ascii.isBlank b = true

theorem IsBlank.nil : IsBlank [] :=
  fun _ hb => absurd hb List.not_mem_nil

theorem tokens_blank {blank : Bytes} (h : IsBlank blank) (rest : Bytes) :
    tokens (blank ++ rest) = tokens rest := by
  induction blank with
  | nil => rfl
  | cons b blank ih =>
      obtain ⟨hb, hblank⟩ := List.forall_mem_cons.mp h
      rw [List.cons_append, tokens, if_pos hb, ih hblank]

theorem ends_blank {blank : Bytes} (h : IsBlank blank) {rest : Bytes} (hrest : Number.Ends rest) :
    Number.Ends (blank ++ rest) := by
  cases blank with
  | nil => exact hrest
  | cons b blank =>
      refine .cons ?_ _
      have hb := h b List.mem_cons_self
      simp only [Ascii.isBlank, Bool.or_eq_true, decide_eq_true_eq] at hb
      rcases hb with ((rfl | rfl) | rfl) | rfl <;> rfl

namespace Spells

theorem tokens_eq {text : Bytes} {ts : List Token} (h : Spells text ts) : tokens text = ts := by
  have htext := h [] .nil
  rw [List.append_nil, tokens_nil, List.append_nil] at htext
  exact htext

/-- What is behind a mark may begin in any way, and what is before one may end in
any way. -/
theorem between {first last : UInt8} {t t' : Token} {text : Bytes} {ts : List Token}
    (hfirst : ∀ rest, tokens (first :: rest) = t :: tokens rest) (h : Spells text ts)
    (hlast : ∀ rest, tokens (last :: rest) = t' :: tokens rest)
    (hends : Number.continues last = false) :
    Spells (first :: (text ++ [last])) (t :: (ts ++ [t'])) := by
  intro rest _
  rw [List.cons_append, hfirst, List.append_assoc, List.singleton_append,
    h _ (.cons hends rest), hlast, List.cons_append, List.append_assoc]
  rfl

theorem blank_append {blank text : Bytes} {ts : List Token} (hblank : IsBlank blank)
    (h : Spells text ts) : Spells (blank ++ text) ts := by
  intro rest hrest
  rw [List.append_assoc, tokens_blank hblank, h rest hrest]

theorem append_blank {blank text : Bytes} {ts : List Token} (h : Spells text ts)
    (hblank : IsBlank blank) : Spells (text ++ blank) ts := by
  intro rest hrest
  rw [List.append_assoc, h _ (ends_blank hblank hrest), tokens_blank hblank]

theorem word {b : UInt8} {t : Token} {rest : Bytes} (h : Token.word? b = some (t, rest))
    (hmark : Token.punctuation? b = none) (hquote : b ≠ Ascii.quote)
    (hblank : Ascii.isBlank b = false) : Spells (b :: rest) [t] := by
  intro behind _
  refine tokens_of_scan hblank ?_
  have hword : Token.behind? rest (rest ++ behind) = some behind := by
    rw [Token.behind?, Bytes.startsWith,
      if_pos (List.isPrefixOf_iff_prefix.mpr (List.prefix_append _ _)), List.drop_left]
  rw [List.append_eq, Token.scan, hmark]
  dsimp only
  rw [if_neg hquote, h]
  dsimp only
  rw [hword]
  rfl

theorem null : Spells (Bytes.ofText "null") [.null] :=
  word (b := Ascii.byte 'n') rfl rfl (by decide) rfl

theorem boolean (b : Bool) : Spells (Query.renderBool b) [.boolean b] := by
  cases b with
  | true => exact word (b := Ascii.byte 't') rfl rfl (by decide) rfl
  | false => exact word (b := Ascii.byte 'f') rfl rfl (by decide) rfl

theorem numeral {text : Bytes} {n : Number} (h : Number.IsNumeral text n) :
    Spells text [.number n] := by
  obtain ⟨b, more, rfl, hb⟩ := h.exists_cons
  -- A byte that a numeral begins with begins no other token.
  have hother : Ascii.isBlank b = false ∧ Token.punctuation? b = none ∧ b ≠ Ascii.quote ∧
      Token.word? b = none := by
    rcases hb with rfl | ⟨d, hd, rfl⟩
    · decide
    · exact (by decide : ∀ d < 10, Ascii.isBlank (Decimal.spell d) = false ∧
        Token.punctuation? (Decimal.spell d) = none ∧ Decimal.spell d ≠ Ascii.quote ∧
        Token.word? (Decimal.spell d) = none) d hd
  obtain ⟨hblank, hmark, hquote, hword⟩ := hother
  intro rest hrest
  have hscan := Number.scan_append h hrest
  rw [List.cons_append] at hscan ⊢
  refine tokens_of_scan hblank ?_
  rw [Token.scan, hmark]
  dsimp only
  rw [if_neg hquote, hword]
  dsimp only
  rw [hscan]
  rfl

theorem integer (z : Int) : Spells (Decimal.ofInt z) [.number (.ofInt z)] :=
  numeral (Number.isNumeral_ofInt z)

theorem literal {body : Bytes} {pieces : List StringLiteral.Piece}
    (h : StringLiteral.Consists body pieces) :
    Spells (Ascii.quote :: (body ++ [Ascii.quote])) [.string (StringLiteral.text? pieces)] := by
  intro rest _
  refine tokens_of_scan rfl ?_
  rw [List.append_eq, List.append_assoc, List.singleton_append, Token.scan]
  have hmark : Token.punctuation? Ascii.quote = none := rfl
  rw [hmark]
  dsimp only
  rw [if_pos rfl, StringLiteral.scan_of_consists h, Option.map_some]

end Spells

/-! ## Items with commas between them -/

/-- The tokens of items with commas between them. -/
def separated : List (List Token) → List Token
  | [] => []
  | ts :: tss => ts ++ tss.flatMap (Token.comma :: ·)

theorem commaSeparated_cons (item : Bytes) (items : List Bytes) :
    Query.commaSeparated (item :: items) = item ++ items.flatMap (Ascii.comma :: ·) := by
  induction items generalizing item with
  | nil => exact (List.append_nil item).symm
  | cons next items ih =>
      rw [Query.commaSeparated, ih, List.flatMap_cons]
      · rfl
      · exact List.cons_ne_nil next items

/-- Whatever follows some items with commas in front, it does not go on with a
numeral before them. -/
theorem ends_flatMap_comma (items : List Bytes) {rest : Bytes} (h : Number.Ends rest) :
    Number.Ends (items.flatMap (Ascii.comma :: ·) ++ rest) := by
  cases items with
  | nil => exact h
  | cons item items => exact .cons rfl _

theorem tokens_flatMap_comma {items : List Bytes} {tss : List (List Token)}
    (h : List.Forall₂ Spells items tss) {rest : Bytes} (hrest : Number.Ends rest) :
    tokens (items.flatMap (Ascii.comma :: ·) ++ rest) =
      tss.flatMap (Token.comma :: ·) ++ tokens rest := by
  induction h with
  | nil => rfl
  | @cons item ts items tss hitem _ ih =>
      rw [List.flatMap_cons, List.flatMap_cons, List.append_assoc, List.cons_append,
        tokens_comma, hitem _ (ends_flatMap_comma items hrest), ih, List.append_assoc]
      rfl

theorem Spells.commaSeparated {items : List Bytes} {tss : List (List Token)}
    (h : List.Forall₂ Spells items tss) :
    Spells (Query.commaSeparated items) (separated tss) := by
  intro rest hrest
  cases h with
  | nil => rfl
  | @cons item ts items tss hitem hitems =>
      rw [commaSeparated_cons, separated, List.append_assoc,
        hitem _ (ends_flatMap_comma items hrest), tokens_flatMap_comma hitems hrest,
        List.append_assoc]

/-- The tokens of a list. -/
def listTokens (tss : List (List Token)) : List Token :=
  .openList :: (separated tss ++ [.closeList])

theorem Spells.list {items : List Bytes} {tss : List (List Token)}
    (h : List.Forall₂ Spells items tss) :
    Spells (Ascii.openBracket :: (Query.commaSeparated items ++ [Ascii.closeBracket]))
      (listTokens tss) :=
  .between (tokens_punctuation rfl rfl) (.commaSeparated h) (tokens_punctuation rfl rfl) rfl

/-! ## Members of an object -/

/-- A member as it is read: its name, if that is any text, and the tokens of its value. -/
structure Part where
  name : Option String
  value : List Token

/-- A member with this name. -/
def Part.named (name : String) (ts : List Token) : Part :=
  ⟨some name, ts⟩

/-- The tokens of a member. -/
def Part.tokens (m : Part) : List Token :=
  .string m.name :: .colon :: m.value

/-- The tokens of an object. -/
def objectTokens (members : List Part) : List Token :=
  .openObject :: (separated (members.map Part.tokens) ++ [.closeObject])

theorem Spells.member {name blank value : Bytes} {pieces : List StringLiteral.Piece}
    {ts : List Token} (hname : StringLiteral.Consists name pieces) (hblank : IsBlank blank)
    (h : Spells value ts) :
    Spells (Ascii.quote :: (name ++ Ascii.quote :: (blank ++ Ascii.colon :: value)))
      (Part.tokens ⟨StringLiteral.text? pieces, ts⟩) := by
  intro rest hrest
  have hcolon : tokens (Ascii.colon :: (value ++ rest)) = .colon :: tokens (value ++ rest) :=
    tokens_punctuation rfl rfl _
  have hliteral := Spells.literal hname (blank ++ Ascii.colon :: (value ++ rest))
    (ends_blank hblank (.cons rfl _))
  rw [tokens_blank hblank, hcolon, h rest hrest] at hliteral
  simpa [Part.tokens] using hliteral

theorem Spells.object {items : List Bytes} {members : List Part}
    (h : List.Forall₂ (fun item member => Spells item member.tokens) items members) :
    Spells (Ascii.openBrace :: (Query.commaSeparated items ++ [Ascii.closeBrace]))
      (objectTokens members) :=
  .between (tokens_punctuation rfl rfl)
    (.commaSeparated (List.forall₂_map_right_iff.mpr h)) (tokens_punctuation rfl rfl) rfl

theorem Spells.renderMember {name : String} (hname : IsPlain name) {value : Bytes}
    {ts : List Token} (h : Spells value ts) :
    Spells (Query.renderMember name value) (Part.named name ts).tokens := by
  have hmember := Spells.member (.of_plain hname) IsBlank.nil h
  rwa [StringLiteral.text?_map_byte, Bytes.text?_ofText] at hmember

theorem Spells.renderMembers {names : List String} (hnames : ∀ name ∈ names, IsPlain name)
    {values : List Bytes} {tss : List (List Token)} (h : List.Forall₂ Spells values tss) :
    List.Forall₂ (fun item member => Spells item member.tokens)
      (List.zipWith Query.renderMember names values)
      (List.zipWith Part.named names tss) := by
  induction h generalizing names with
  | nil => simp
  | cons hvalue _ ih =>
      cases names with
      | nil => simp
      | cons name names =>
          obtain ⟨hname, hnames⟩ := List.forall_mem_cons.mp hnames
          exact .cons (.renderMember hname hvalue) (ih hnames)

end PagedScan.Json
