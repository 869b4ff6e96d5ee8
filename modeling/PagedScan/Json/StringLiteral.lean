import PagedScan.Json.Ascii

/-!
# String literals

A string literal is read in two stages. The first takes it apart into pieces,
a byte that stands for itself or for a short escape, or a code unit given by
`\u` and four hexadecimal digits, up to the closing quote. The second puts the
pieces together into a text, and fails when they make none: when a surrogate
is left without its partner, or when the bytes are not UTF-8.

The stages are apart because a literal that nobody is going to read only has
to be taken apart.
-/

namespace PagedScan.Json.StringLiteral

/-- What a literal is made of. -/
inductive Piece where
  | byte (b : UInt8)
  | unit (u : Nat)
  deriving DecidableEq, Repr

/-! ## Taking a literal apart -/

/-- The value of a hexadecimal digit. -/
def hexDigit? (b : UInt8) : Option Nat :=
  if Ascii.byte '0' ≤ b ∧ b ≤ Ascii.byte '9' then some (b.toNat - 48)
  else if Ascii.byte 'a' ≤ b ∧ b ≤ Ascii.byte 'f' then some (b.toNat - 87)
  else if Ascii.byte 'A' ≤ b ∧ b ≤ Ascii.byte 'F' then some (b.toNat - 55)
  else none

/-- The code unit that four hexadecimal digits denote. -/
def unit? (a b c d : UInt8) : Option Nat := do
  return 4096 * (← hexDigit? a) + 256 * (← hexDigit? b) + 16 * (← hexDigit? c)
    + (← hexDigit? d)

/-- The byte that a one-letter escape stands for. -/
def shortEscape? (b : UInt8) : Option UInt8 :=
  if b = Ascii.quote ∨ b = Ascii.backslash ∨ b = Ascii.slash then some b
  else if b = Ascii.byte 'b' then some 0x08
  else if b = Ascii.byte 'f' then some 0x0C
  else if b = Ascii.byte 'n' then some 0x0A
  else if b = Ascii.byte 'r' then some 0x0D
  else if b = Ascii.byte 't' then some 0x09
  else none

/-- Puts a piece in front of those behind it. -/
def andThen (p : Piece) (found : Option (List Piece × Bytes)) :
    Option (List Piece × Bytes) :=
  found.map fun (pieces, rest) => (p :: pieces, rest)

/-- The pieces up to the closing quote, and what is behind it. -/
def scan : Bytes → Option (List Piece × Bytes)
  | [] => none
  | b :: rest =>
      if b = Ascii.quote then some ([], rest)
      else if b < Ascii.space then none
      else if b = Ascii.backslash then
        match rest with
        | [] => none
        | e :: rest' =>
            if e = Ascii.byte 'u' then
              match rest' with
              | a :: b :: c :: d :: rest'' =>
                  match unit? a b c d with
                  | some u => andThen (.unit u) (scan rest'')
                  | none => none
              | _ => none
            else
              match shortEscape? e with
              | some c => andThen (.byte c) (scan rest')
              | none => none
      else andThen (.byte b) (scan rest)

/-! ## Putting a text together -/

/-- Whether a code unit is the first half of a pair. -/
def isHighSurrogate (u : Nat) : Bool :=
  0xD800 ≤ u && u < 0xDC00

/-- Whether a code unit is the second half of a pair. -/
def isLowSurrogate (u : Nat) : Bool :=
  0xDC00 ≤ u && u < 0xE000

/-- The code point that a pair of surrogates denotes. -/
def codePoint (high low : Nat) : Nat :=
  0x10000 + 0x400 * (high - 0xD800) + (low - 0xDC00)

/-- The bytes of a code point in UTF-8. -/
def utf8 (code : Nat) : Bytes :=
  String.utf8EncodeChar (Char.ofNat code)

/-- The bytes that the pieces denote. -/
def bytes? : List Piece → Option Bytes
  | [] => some []
  | .byte b :: rest => (bytes? rest).map (b :: ·)
  | .unit u :: rest =>
      if isHighSurrogate u then
        match rest with
        | .unit v :: rest' =>
            if isLowSurrogate v then (bytes? rest').map (utf8 (codePoint u v) ++ ·)
            else none
        | _ => none
      else if isLowSurrogate u then none
      else (bytes? rest).map (utf8 u ++ ·)

/-- The text that the pieces denote. -/
def text? (pieces : List Piece) : Option String :=
  (bytes? pieces).bind Bytes.text?

/-! ## A literal takes at least its closing quote -/

theorem of_andThen {p : Piece} {found : Option (List Piece × Bytes)}
    {pieces : List Piece} {rest : Bytes}
    (h : andThen p found = some (pieces, rest)) :
    ∃ behind, found = some (behind, rest) := by
  obtain ⟨⟨behind, rest'⟩, hfound, heq⟩ := Option.map_eq_some_iff.mp h
  cases heq
  exact ⟨behind, hfound⟩

theorem length_scan_lt {bytes rest : Bytes} {pieces : List Piece}
    (h : scan bytes = some (pieces, rest)) : rest.length < bytes.length := by
  fun_induction scan bytes generalizing pieces <;> try cases h
  case case2 => exact Nat.lt_succ_self _
  case case5 ih | case8 ih | case10 ih =>
    obtain ⟨more, hmore⟩ := of_andThen h
    have := ih hmore
    simp only [List.length_cons]
    omega

end PagedScan.Json.StringLiteral
