import PagedScan.Json.Number
import PagedScan.Json.StringLiteral

/-!
# Tokens

A JSON text is read as the list of its tokens. The list goes as far as tokens
can be read: where the bytes are no token it ends in `broken`, and whatever is
behind that place is not looked at. A reader of the list therefore meets the
first flaw of the text in reading order, and may still object to something
before it.

A token says no more than the bytes do. A string literal that denotes no text
and a number that is too large are tokens like any other, since a value that
is skipped may contain them.
-/

namespace PagedScan.Json

/-- The smallest parts of a JSON text. -/
inductive Token where
  | null
  | boolean (b : Bool)
  | number (n : Number)
  | string (text : Option String)
  | openList
  | closeList
  | openObject
  | closeObject
  | comma
  | colon
  | broken
  deriving DecidableEq, Repr

namespace Token

/-- What is behind a word, if the bytes begin with it. -/
def behind? (word bytes : Bytes) : Option Bytes :=
  if Bytes.startsWith bytes word then some (bytes.drop word.length) else none

/-- The token that a byte is by itself. -/
def punctuation? (b : UInt8) : Option Token :=
  if b = Ascii.openBrace then some .openObject
  else if b = Ascii.closeBrace then some .closeObject
  else if b = Ascii.openBracket then some .openList
  else if b = Ascii.closeBracket then some .closeList
  else if b = Ascii.comma then some .comma
  else if b = Ascii.colon then some .colon
  else none

/-- The token that is a word beginning with this byte, and the rest of the
word. -/
def word? (b : UInt8) : Option (Token × Bytes) :=
  if b = Ascii.byte 'n' then some (.null, Bytes.ofText "ull")
  else if b = Ascii.byte 't' then some (.boolean true, Bytes.ofText "rue")
  else if b = Ascii.byte 'f' then some (.boolean false, Bytes.ofText "alse")
  else none

/-- The token that begins with the byte `b`, which is not blank, and what is
behind it. -/
def scan (b : UInt8) (rest : Bytes) : Option (Token × Bytes) :=
  match punctuation? b with
  | some t => some (t, rest)
  | none =>
      if b = Ascii.quote then
        (StringLiteral.scan rest).map fun (pieces, behind) =>
          (.string (StringLiteral.text? pieces), behind)
      else
        match word? b with
        | some (t, word) => (behind? word rest).map (t, ·)
        | none =>
            (Number.scan (b :: rest)).map fun (n, behind) => (.number n, behind)

theorem length_behind?_le {word bytes rest : Bytes}
    (h : behind? word bytes = some rest) : rest.length ≤ bytes.length := by
  unfold behind? at h
  split at h
  · cases h; rw [List.length_drop]; exact Nat.sub_le _ _
  · cases h

theorem length_scan_le {b : UInt8} {bytes rest : Bytes} {t : Token}
    (h : scan b bytes = some (t, rest)) : rest.length ≤ bytes.length := by
  unfold scan at h
  split at h
  · cases h; exact Nat.le_refl _
  · split at h
    · obtain ⟨⟨pieces, behind⟩, hscan, heq⟩ := Option.map_eq_some_iff.mp h
      cases heq
      exact Nat.le_of_lt (StringLiteral.length_scan_lt hscan)
    · split at h
      · obtain ⟨behind, hbehind, heq⟩ := Option.map_eq_some_iff.mp h
        cases heq
        exact length_behind?_le hbehind
      · obtain ⟨⟨n, behind⟩, hscan, heq⟩ := Option.map_eq_some_iff.mp h
        cases heq
        exact Nat.le_of_lt_succ (Number.length_scan_lt hscan)

end Token

/-- The tokens of a text, up to the first place that is none. -/
def tokens : Bytes → List Token
  | [] => []
  | b :: rest =>
      if Ascii.isBlank b then tokens rest
      else
        match _h : Token.scan b rest with
        | some (t, rest') => t :: tokens rest'
        | none => [.broken]
termination_by bytes => bytes.length
decreasing_by
  · exact Nat.lt_succ_self _
  · exact Nat.lt_succ_of_le (Token.length_scan_le _h)

end PagedScan.Json
