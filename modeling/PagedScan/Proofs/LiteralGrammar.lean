import PagedScan.Json.StringLiteral

/-!
# String literals and the texts they denote

A character may be written in a literal in up to three ways: as itself, by an escape of
one letter, or by the four digits of its code, twice four if it has no code unit of its
own. `Denotes` is that rule, one character after the other, for every mix of the ways.

The reader does not go by characters. It takes a literal apart into pieces first, and
what stands for itself is then a byte and not a character; only afterwards does it put
code units together in pairs. So the rule is met in the middle: what is written for one
character is some pieces (`Consists`), which mean the bytes of that character no matter
what pieces are behind them. The last point is the one to prove, because a unit that is
the first half of a pair does look at what is behind it.

Backwards, what the bytes of a text were written as has to be found in the literal. A
character of more bytes than one is no piece of its own there, but every byte behind its
first one is of a kind that no escape begins with, so these can only stand there as they
are, one behind the other.

A literal that nobody reads needs no text. For such a one `Consists` alone is asked,
which also allows a half of a pair by itself.
-/

namespace PagedScan

theorem Bytes.text?_ofText (text : String) : Bytes.text? (Bytes.ofText text) = some text := by
  have harray : (⟨(Bytes.ofText text).toArray⟩ : ByteArray) = text.toUTF8 := by
    rw [Bytes.ofText, Array.toArray_toList]
  rw [Bytes.text?, harray, String.fromUTF8?]
  exact dif_pos text.isValidUTF8

theorem Bytes.ofText_of_text? {bytes : Bytes} {text : String} (h : Bytes.text? bytes = some text) :
    Bytes.ofText text = bytes := by
  rw [Bytes.text?, String.fromUTF8?] at h
  split at h
  · cases h
    exact List.toList_toArray
  · cases h

namespace Json.StringLiteral

/-! ## What literals are made of -/

/-- Whether a byte stands for itself in a literal. -/
def isPlain (b : UInt8) : Bool :=
  !(b = Ascii.quote || b < Ascii.space || b = Ascii.backslash)

/-- The hexadecimal digits and what they stand for. -/
def hexDigits : List (Char × Nat) :=
  ['0', '1', '2', '3', '4', '5', '6', '7', '8', '9', 'a', 'b', 'c', 'd', 'e', 'f'].zipIdx ++
    ['A', 'B', 'C', 'D', 'E', 'F'].zipIdx 10

/-- The letters behind a backslash and the characters they stand for. -/
def shortEscapes : List (Char × Char) :=
  [('"', '"'), ('\\', '\\'), ('/', '/'), ('b', '\x08'), ('f', '\x0C'), ('n', '\n'),
    ('r', '\r'), ('t', '\t')]

/-- Four hexadecimal digits, the most significant one first, and the code unit they
denote. -/
inductive IsUnit : Bytes → Nat → Prop
  | digits {a b c d : Char} {w x y z : Nat} (ha : (a, w) ∈ hexDigits)
      (hb : (b, x) ∈ hexDigits) (hc : (c, y) ∈ hexDigits) (hd : (d, z) ∈ hexDigits) :
      IsUnit [Ascii.byte a, Ascii.byte b, Ascii.byte c, Ascii.byte d]
        (16 * (16 * (16 * w + x) + y) + z)

/-- An escape with the digits of a code unit. -/
def unitEscape (digits : Bytes) : Bytes :=
  Ascii.backslash :: Ascii.byte 'u' :: digits

/-- What stands between the quotes of a literal, and the pieces it is made of. -/
inductive Consists : Bytes → List Piece → Prop
  | nil : Consists [] []
  | plain {b : UInt8} {body : Bytes} {pieces : List Piece} (hb : isPlain b = true)
      (h : Consists body pieces) : Consists (b :: body) (.byte b :: pieces)
  | short {letter meant : Char} {body : Bytes} {pieces : List Piece}
      (hletter : (letter, meant) ∈ shortEscapes) (h : Consists body pieces) :
      Consists (Ascii.backslash :: Ascii.byte letter :: body)
        (.byte (Ascii.byte meant) :: pieces)
  | unit {digits body : Bytes} {u : Nat} {pieces : List Piece} (hu : IsUnit digits u)
      (h : Consists body pieces) : Consists (unitEscape digits ++ body) (.unit u :: pieces)

/-- What may be written for a character. -/
inductive Writes : Bytes → Char → Prop
  | itself {c : Char} (hquote : c ≠ '"') (hbackslash : c ≠ '\\') (hcontrol : ' ' ≤ c) :
      Writes (String.utf8EncodeChar c) c
  | short {letter c : Char} (h : (letter, c) ∈ shortEscapes) :
      Writes [Ascii.backslash, Ascii.byte letter] c
  | unit {digits : Bytes} {c : Char} (h : IsUnit digits c.toNat) : Writes (unitEscape digits) c
  | pair {digits digits' : Bytes} {high low : Nat} {c : Char} (hhigh : IsUnit digits high)
      (hlow : IsUnit digits' low) (hrange : 0xD800 ≤ high ∧ high < 0xDC00)
      (hrange' : 0xDC00 ≤ low ∧ low < 0xE000)
      (hc : c.toNat = 0x10000 + 0x400 * (high - 0xD800) + (low - 0xDC00)) :
      Writes (unitEscape digits ++ unitEscape digits') c

/-- What may stand between the quotes of a literal for these characters. -/
inductive Denotes : Bytes → List Char → Prop
  | nil : Denotes [] []
  | cons {written body : Bytes} {c : Char} {cs : List Char} (hc : Writes written c)
      (h : Denotes body cs) : Denotes (written ++ body) (c :: cs)

/-! ## Taking a literal apart -/

theorem unit?_of_isUnit {digits : Bytes} {u : Nat} (h : IsUnit digits u) :
    ∃ a b c d, digits = [a, b, c, d] ∧ unit? a b c d = some u := by
  have hdigit : ∀ p ∈ hexDigits, hexDigit? (Ascii.byte p.1) = some p.2 := by decide
  obtain @⟨a, b, c, d, w, x, y, z, ha, hb, hc, hd⟩ := h
  refine ⟨_, _, _, _, rfl, ?_⟩
  simp only [unit?, hdigit _ ha, hdigit _ hb, hdigit _ hc, hdigit _ hd, Option.bind_eq_bind,
    Option.bind_some, Option.pure_def, Option.some.injEq]
  omega

theorem scan_of_consists {body : Bytes} {pieces : List Piece} (h : Consists body pieces)
    (rest : Bytes) : scan (body ++ Ascii.quote :: rest) = some (pieces, rest) := by
  induction h with
  | nil =>
      rw [List.nil_append, scan.eq_def]
      exact if_pos rfl
  | @plain b body pieces hb _ ih =>
      simp only [isPlain, Bool.not_eq_true', Bool.or_eq_false_iff, decide_eq_false_iff_not] at hb
      rw [List.cons_append, scan.eq_def]
      dsimp only
      rw [if_neg hb.1.1, if_neg hb.1.2, if_neg hb.2, ih]
      rfl
  | @short letter meant body pieces hletter _ ih =>
      have hescape : ∀ p ∈ shortEscapes, Ascii.byte p.1 ≠ Ascii.byte 'u' ∧
          shortEscape? (Ascii.byte p.1) = some (Ascii.byte p.2) := by decide
      obtain ⟨hu, hmeant⟩ := hescape _ hletter
      rw [List.cons_append, List.cons_append, scan.eq_def]
      dsimp only
      rw [if_neg (by decide), if_neg (by decide), if_pos rfl, if_neg hu, hmeant, ih]
      rfl
  | @unit digits body u pieces hu _ ih =>
      obtain ⟨a, b, c, d, rfl, hunit⟩ := unit?_of_isUnit hu
      rw [unitEscape, List.cons_append, List.cons_append, List.cons_append, List.cons_append,
        scan.eq_def]
      dsimp only [List.cons_append, List.nil_append]
      rw [if_neg (by decide), if_neg (by decide), if_pos rfl, if_pos rfl, hunit]
      dsimp only
      rw [ih]
      rfl

theorem Consists.append {body body' : Bytes} {pieces pieces' : List Piece}
    (h : Consists body pieces) (h' : Consists body' pieces') :
    Consists (body ++ body') (pieces ++ pieces') := by
  induction h with
  | nil => exact h'
  | plain hb _ ih => exact .plain hb ih
  | short hletter _ ih => exact .short hletter ih
  | unit hu _ ih =>
      rw [List.append_assoc]
      exact .unit hu ih

theorem Consists.of_plain {body : Bytes} (h : ∀ b ∈ body, isPlain b = true) :
    Consists body (body.map .byte) := by
  induction body with
  | nil => exact .nil
  | cons b body ih =>
      obtain ⟨hb, hbody⟩ := List.forall_mem_cons.mp h
      exact .plain hb (ih hbody)

/-! ## What the pieces of one character mean -/

theorem bytes?_map_byte_append (bytes : Bytes) (pieces : List Piece) :
    bytes? (bytes.map .byte ++ pieces) = (bytes? pieces).map (bytes ++ ·) := by
  induction bytes with
  | nil => cases h : bytes? pieces <;> simp [h]
  | cons b bytes ih =>
      rw [List.map_cons, List.cons_append, bytes?, ih, Option.map_map]
      rfl

/-- Bytes that stand for themselves are the bytes of the text, if there is one. -/
theorem text?_map_byte (bytes : Bytes) : text? (bytes.map .byte) = Bytes.text? bytes := by
  have hbytes := bytes?_map_byte_append bytes []
  rw [List.append_nil, bytes?, Option.map_some, List.append_nil] at hbytes
  rw [text?, hbytes, Option.bind_some]

theorem isPlain_iff {b : UInt8} :
    isPlain b = true ↔ b.toNat ≠ 0x22 ∧ 0x20 ≤ b.toNat ∧ b.toNat ≠ 0x5C := by
  have hquote : b = Ascii.quote ↔ b.toNat = 0x22 := UInt8.toNat_inj.symm
  have hspace : b < Ascii.space ↔ b.toNat < 0x20 := UInt8.lt_iff_toNat_lt
  have hbackslash : b = Ascii.backslash ↔ b.toNat = 0x5C := UInt8.toNat_inj.symm
  simp only [isPlain, Bool.not_eq_true', Bool.or_eq_false_iff, decide_eq_false_iff_not, hquote,
    hspace, hbackslash, Nat.not_lt, and_assoc]

/-- Whether a byte goes on with a character that began before it. -/
def GoesOn (b : UInt8) : Prop :=
  0x80 ≤ b.toNat ∧ b.toNat < 0xC0

/-- The first byte of a character, which may be the whole of it, and those that go on from
there. -/
theorem exists_utf8EncodeChar (c : Char) :
    ∃ b more, String.utf8EncodeChar c = b :: more ∧
      (b.toNat = c.toNat ∧ c.toNat < 0x80 ∨ 0xC0 ≤ b.toNat ∧ 0x80 ≤ c.toNat) ∧
      ∀ x ∈ more, GoesOn x := by
  have hmore : ∀ n, GoesOn (UInt8.ofNat (n % 64 + 128)) := by
    intro n
    rw [GoesOn, UInt8.toNat_ofNat']
    omega
  have hlead : ∀ n, 0xC0 ≤ n → n < 0x100 → 0xC0 ≤ (UInt8.ofNat n).toNat := by
    intro n hlow hhigh
    rw [UInt8.toNat_ofNat']
    omega
  rw [String.utf8EncodeChar]
  split
  · next hone =>
      have hcode : c.toNat < 0x80 := Nat.lt_succ_of_le hone
      refine ⟨_, _, rfl, .inl ⟨?_, hcode⟩, by simp⟩
      exact Nat.mod_eq_of_lt (Nat.lt_trans hcode (by decide))
  · next hone =>
      have hcode : 0x80 ≤ c.toNat := Nat.lt_of_not_le hone
      split
      · exact ⟨_, _, rfl, .inr ⟨hlead _ (by omega) (by omega), hcode⟩,
          List.forall_mem_singleton.mpr (hmore _)⟩
      · split
        · exact ⟨_, _, rfl, .inr ⟨hlead _ (by omega) (by omega), hcode⟩,
            List.forall_mem_cons.mpr ⟨hmore _, List.forall_mem_singleton.mpr (hmore _)⟩⟩
        · exact ⟨_, _, rfl, .inr ⟨hlead _ (by omega) (by omega), hcode⟩,
            List.forall_mem_cons.mpr ⟨hmore _, List.forall_mem_cons.mpr
              ⟨hmore _, List.forall_mem_singleton.mpr (hmore _)⟩⟩⟩

/-- A character that may stand for itself is written in bytes that do. -/
theorem isPlain_of_mem_utf8EncodeChar {c : Char} (hquote : c ≠ '"') (hbackslash : c ≠ '\\')
    (hcontrol : ' ' ≤ c) {b : UInt8} (h : b ∈ String.utf8EncodeChar c) : isPlain b = true := by
  have hne : ∀ {d : Char}, c ≠ d → c.toNat ≠ d.toNat := fun hcd heq =>
    hcd (Char.ext (UInt32.toNat_inj.mp heq))
  have hquote : c.toNat ≠ 0x22 := hne hquote
  have hbackslash : c.toNat ≠ 0x5C := hne hbackslash
  have hcontrol : 0x20 ≤ c.toNat := hcontrol
  obtain ⟨first, more, hc, hfirst, hmore⟩ := exists_utf8EncodeChar c
  rw [hc, List.mem_cons] at h
  rw [isPlain_iff]
  rcases h with rfl | h
  · omega
  · have hlarge := (hmore b h).1
    omega

/-- No character has the code of a surrogate. -/
theorem not_surrogate (c : Char) :
    isHighSurrogate c.toNat = false ∧ isLowSurrogate c.toNat = false := by
  have hvalid : c.toNat < 0xD800 ∨ 0xDFFF < c.toNat ∧ c.toNat < 0x110000 := c.valid
  simp only [isHighSurrogate, isLowSurrogate, Bool.and_eq_false_iff, decide_eq_false_iff_not]
  omega

theorem exists_consists_of_writes {written : Bytes} {c : Char} (h : Writes written c) :
    ∃ group, Consists written group ∧
      ∀ pieces, bytes? (group ++ pieces) = (bytes? pieces).map (String.utf8EncodeChar c ++ ·) := by
  cases h with
  | itself hquote hbackslash hcontrol =>
      exact ⟨_, .of_plain fun b => isPlain_of_mem_utf8EncodeChar hquote hbackslash hcontrol,
        bytes?_map_byte_append _⟩
  | @short letter _ hletter =>
      have hone : ∀ p ∈ shortEscapes, String.utf8EncodeChar p.2 = [Ascii.byte p.2] := by decide
      refine ⟨_, .short hletter .nil, fun pieces => ?_⟩
      rw [hone _ hletter]
      rfl
  | @unit digits _ hu =>
      have hgroup := Consists.unit hu .nil
      rw [List.append_nil] at hgroup
      refine ⟨_, hgroup, fun pieces => ?_⟩
      obtain ⟨hhigh, hlow⟩ := not_surrogate c
      rw [List.singleton_append, bytes?.eq_def]
      dsimp only
      rw [hhigh, hlow, utf8, Char.ofNat_toNat]
      rfl
  | @pair digits digits' high low _ hhigh hlow hrange hrange' hc =>
      have hgroup := (Consists.unit hhigh .nil).append (.unit hlow .nil)
      rw [List.append_nil, List.append_nil] at hgroup
      refine ⟨_, hgroup, fun pieces => ?_⟩
      have hfirst : isHighSurrogate high = true := by
        rw [isHighSurrogate, decide_eq_true hrange.1, decide_eq_true hrange.2]
        rfl
      have hsecond : isLowSurrogate low = true := by
        rw [isLowSurrogate, decide_eq_true hrange'.1, decide_eq_true hrange'.2]
        rfl
      have hcode : codePoint high low = c.toNat := hc.symm
      simp only [List.cons_append, List.nil_append, bytes?, hfirst, hsecond, hcode, utf8,
        Char.ofNat_toNat, if_true]

/-! ## The text of a literal -/

theorem exists_consists_of_denotes {body : Bytes} {cs : List Char} (h : Denotes body cs) :
    ∃ pieces, Consists body pieces ∧ bytes? pieces = some (cs.flatMap String.utf8EncodeChar) := by
  induction h with
  | nil => exact ⟨[], .nil, rfl⟩
  | @cons written body c cs hc _ ih =>
      obtain ⟨group, hgroup, hmeans⟩ := exists_consists_of_writes hc
      obtain ⟨pieces, hpieces, hbytes⟩ := ih
      refine ⟨group ++ pieces, hgroup.append hpieces, ?_⟩
      rw [hmeans, hbytes, List.flatMap_cons]
      rfl

theorem ofText_eq_flatMap (text : String) :
    Bytes.ofText text = text.toList.flatMap String.utf8EncodeChar := by
  have hbytes : text.toUTF8 = (text.toList.flatMap String.utf8EncodeChar).toByteArray :=
    String.utf8Encode_toList.symm
  rw [Bytes.ofText, hbytes, List.data_toByteArray]

/-- Pieces that a literal for a text is made of give that text back. -/
theorem exists_text_of_denotes {body : Bytes} {text : String} (h : Denotes body text.toList) :
    ∃ pieces, Consists body pieces ∧ text? pieces = some text := by
  obtain ⟨pieces, hpieces, hbytes⟩ := exists_consists_of_denotes h
  refine ⟨pieces, hpieces, ?_⟩
  rw [text?, hbytes, Option.bind_some, ← ofText_eq_flatMap, Bytes.text?_ofText]

/-! ## No other text -/

/-- No character's bytes begin those of another. -/
theorem eq_of_utf8EncodeChar_append {c d : Char} {bytes bytes' : Bytes}
    (h : String.utf8EncodeChar c ++ bytes = String.utf8EncodeChar d ++ bytes') :
    c = d ∧ bytes = bytes' := by
  have hdecode : ∀ (c : Char) (bytes : Bytes),
      (String.utf8EncodeChar c ++ bytes).toByteArray.utf8DecodeChar? 0 = some c := by
    intro c bytes
    have hfirst := @List.utf8DecodeChar?_utf8Encode_singleton_append bytes.toByteArray c
    rwa [List.utf8Encode, List.flatMap_singleton, ← List.toByteArray_append] at hfirst
  have hcd : some c = some d := by rw [← hdecode c bytes, h, hdecode]
  obtain rfl := Option.some.inj hcd
  exact ⟨rfl, List.append_cancel_left h⟩

theorem IsUnit.lt {digits : Bytes} {u : Nat} (h : IsUnit digits u) : u < 0x10000 := by
  have hdigit : ∀ p ∈ hexDigits, p.2 < 16 := by decide
  obtain ⟨ha, hb, hc, hd⟩ := h
  have ha := hdigit _ ha
  have hb := hdigit _ hb
  have hc := hdigit _ hc
  have hd := hdigit _ hd
  dsimp only at ha hb hc hd
  omega

theorem toNat_ofNat {code : Nat} (h : code < 0xD800 ∨ 0xDFFF < code ∧ code < 0x110000) :
    (Char.ofNat code).toNat = code := by
  rw [Char.ofNat, dif_pos h]
  rfl

/-- An escape that denotes bytes at the front of others stands for a character. -/
theorem exists_writes_of_unit {digits body : Bytes} {u : Nat} {pieces : List Piece}
    {bytes : Bytes} (hu : IsUnit digits u) (h : Consists body pieces)
    (hbytes : bytes? (.unit u :: pieces) = some bytes) :
    ∃ written c body' bytes' pieces', unitEscape digits ++ body = written ++ body' ∧
      bytes = String.utf8EncodeChar c ++ bytes' ∧ Writes written c ∧ Consists body' pieces' ∧
      bytes? pieces' = some bytes' := by
  rw [bytes?.eq_def] at hbytes
  dsimp only at hbytes
  split at hbytes
  · next hhigh =>
      split at hbytes
      · next v pieces' =>
          split at hbytes
          · next hlow =>
              obtain ⟨bytes', hbytes', rfl⟩ := Option.map_eq_some_iff.mp hbytes
              cases h with
              | @unit digits' body' _ _ hv h =>
                  simp only [isHighSurrogate, isLowSurrogate, Bool.and_eq_true,
                    decide_eq_true_eq] at hhigh hlow
                  have hvalid : 0xDFFF < codePoint u v ∧ codePoint u v < 0x110000 := by
                    unfold codePoint
                    omega
                  have hcode : (Char.ofNat (codePoint u v)).toNat = codePoint u v :=
                    toNat_ofNat (.inr hvalid)
                  refine ⟨unitEscape digits ++ unitEscape digits', Char.ofNat (codePoint u v),
                    body', bytes', pieces', ?_, rfl, .pair hu hv hhigh hlow hcode, h, hbytes'⟩
                  rw [List.append_assoc]
          · cases hbytes
      · cases hbytes
  · next hhigh =>
      split at hbytes
      · cases hbytes
      · next hlow =>
          obtain ⟨bytes', hbytes', rfl⟩ := Option.map_eq_some_iff.mp hbytes
          have hlt := hu.lt
          simp only [isHighSurrogate, isLowSurrogate, Bool.and_eq_true,
            decide_eq_true_eq] at hhigh hlow
          have hcode : (Char.ofNat u).toNat = u := toNat_ofNat (by omega)
          rw [← hcode] at hu
          exact ⟨unitEscape digits, Char.ofNat u, body, bytes', pieces, rfl, rfl, .unit hu, h,
            hbytes'⟩

/-- What a literal that denotes bytes begins with: a byte that stands for itself, or an
escape that stands for a character. -/
theorem exists_first {body : Bytes} {pieces : List Piece} {bytes : Bytes}
    (h : Consists body pieces) (hbytes : bytes? pieces = some bytes) :
    body = [] ∧ bytes = [] ∨
      (∃ b body' bytes' pieces', body = b :: body' ∧ bytes = b :: bytes' ∧ isPlain b = true ∧
        Consists body' pieces' ∧ bytes? pieces' = some bytes') ∨
      ∃ written c body' bytes' pieces', body = written ++ body' ∧
        bytes = String.utf8EncodeChar c ++ bytes' ∧ Writes written c ∧ Consists body' pieces' ∧
        bytes? pieces' = some bytes' := by
  cases h with
  | nil => exact .inl ⟨rfl, (Option.some.inj hbytes).symm⟩
  | plain hb h =>
      obtain ⟨bytes', hbytes', rfl⟩ := Option.map_eq_some_iff.mp hbytes
      exact .inr (.inl ⟨_, _, bytes', _, rfl, rfl, hb, h, hbytes'⟩)
  | @short letter meant body pieces hletter h =>
      have hone : ∀ p ∈ shortEscapes, String.utf8EncodeChar p.2 = [Ascii.byte p.2] := by decide
      obtain ⟨bytes', hbytes', rfl⟩ := Option.map_eq_some_iff.mp hbytes
      refine .inr (.inr ⟨[Ascii.backslash, Ascii.byte letter], meant, body, bytes', pieces, rfl, ?_,
        .short hletter, h, hbytes'⟩)
      rw [hone _ hletter]
      rfl
  | unit hu h => exact .inr (.inr (exists_writes_of_unit hu h hbytes))

/-- Bytes that go on with a character can only stand for themselves. -/
theorem exists_rest_of_goesOn {more body bytes : Bytes} {pieces : List Piece}
    (hmore : ∀ x ∈ more, GoesOn x) (h : Consists body pieces)
    (hbytes : bytes? pieces = some (more ++ bytes)) :
    ∃ body' pieces', body = more ++ body' ∧ Consists body' pieces' ∧
      bytes? pieces' = some bytes := by
  induction more generalizing body pieces with
  | nil => exact ⟨body, pieces, rfl, h, hbytes⟩
  | cons x more ih =>
      obtain ⟨hx, hmore⟩ := List.forall_mem_cons.mp hmore
      rcases exists_first h hbytes with ⟨-, hnil⟩ |
        ⟨b, body', bytes', pieces', rfl, heq, -, hbody', hbytes'⟩ |
        ⟨written, c, body', bytes', pieces', rfl, heq, -, -, -⟩
      · cases hnil
      · obtain ⟨rfl, rfl⟩ := List.cons.inj heq
        obtain ⟨body'', pieces'', rfl, hrest⟩ := ih hmore hbody' hbytes'
        exact ⟨body'', pieces'', rfl, hrest⟩
      · obtain ⟨b, rest, hc, hb, -⟩ := exists_utf8EncodeChar c
        rw [hc] at heq
        obtain ⟨rfl, -⟩ := List.cons.inj heq
        rw [GoesOn] at hx
        omega

theorem denotes_of_bytes {cs : List Char} {body : Bytes} {pieces : List Piece}
    (h : Consists body pieces) (hbytes : bytes? pieces = some (cs.flatMap String.utf8EncodeChar)) :
    Denotes body cs := by
  induction cs generalizing body pieces with
  | nil =>
      rcases exists_first h hbytes with ⟨rfl, -⟩ | ⟨b, body', bytes', pieces', -, hcons, -⟩ |
        ⟨written, c, body', bytes', pieces', -, hcons, -⟩
      · exact .nil
      · cases hcons
      · obtain ⟨b, more, hc, -⟩ := exists_utf8EncodeChar c
        rw [hc] at hcons
        cases hcons
  | cons c cs ih =>
      obtain ⟨b, more, hc, hb, hmore⟩ := exists_utf8EncodeChar c
      rw [List.flatMap_cons] at hbytes
      rcases exists_first h hbytes with ⟨-, hnil⟩ |
        ⟨b', body', bytes', pieces', rfl, heq, hplain, hbody', hbytes'⟩ |
        ⟨written, c', body', bytes', pieces', rfl, heq, hwrites, hbody', hbytes'⟩
      · rw [hc] at hnil
        cases hnil
      · rw [hc] at heq
        obtain ⟨rfl, rfl⟩ := List.cons.inj heq
        obtain ⟨body'', pieces'', rfl, hbody'', hbytes''⟩ :=
          exists_rest_of_goesOn hmore hbody' hbytes'
        rw [isPlain_iff] at hplain
        have hwrites : Writes (b :: more) c := by
          rw [← hc]
          -- Were the character one of those, it would be its first byte, which stands for
          -- itself.
          have hcode : c.toNat ≠ 0x22 ∧ c.toNat ≠ 0x5C ∧ 0x20 ≤ c.toNat := by omega
          refine .itself ?_ ?_ hcode.2.2
          · rintro rfl
            exact hcode.1 rfl
          · rintro rfl
            exact hcode.2.1 rfl
        exact .cons hwrites (ih hbody'' hbytes'')
      · obtain ⟨rfl, rfl⟩ := eq_of_utf8EncodeChar_append heq
        exact .cons hwrites (ih hbody' hbytes')

theorem Consists.unique {body : Bytes} {pieces pieces' : List Piece} (h : Consists body pieces)
    (h' : Consists body pieces') : pieces = pieces' := by
  have hscan := scan_of_consists h []
  rw [scan_of_consists h' []] at hscan
  exact (congrArg Prod.fst (Option.some.inj hscan)).symm

/-- A literal is read as a text exactly if it is one for that text. -/
theorem text?_eq_some_iff {body : Bytes} {pieces : List Piece} (h : Consists body pieces)
    {text : String} : text? pieces = some text ↔ Denotes body text.toList := by
  constructor
  · intro htext
    obtain ⟨bytes, hbytes, htext⟩ := Option.bind_eq_some_iff.mp htext
    rw [← Bytes.ofText_of_text? htext, ofText_eq_flatMap] at hbytes
    exact denotes_of_bytes h hbytes
  · intro hdenotes
    obtain ⟨pieces', h', htext⟩ := exists_text_of_denotes hdenotes
    rwa [h.unique h']

end Json.StringLiteral

end PagedScan
