import PagedScan.Json.Record
import PagedScan.Query

/-!
# Queries as JSON

A query is an open record with the fields `from`, `prefix`, `end`, `limit`,
`reverse` and `exclude_from`. A key is written as the list of its bytes, and
may also be given as a string, which stands for its bytes in UTF-8; a key that
is absent is `null`.
-/

namespace PagedScan

namespace Query

open Json

/-! ## Reading -/

/-- What a key may be given as. -/
def keyTitle : String := "a string, a byte array or null"

/-- Reads a key that may be absent. -/
def readKey : List Token → Read (Option Bytes)
  | .null :: rest => .ok (none, rest)
  | .string (some text) :: rest => .ok (some (Bytes.ofText text), rest)
  | .openList :: rest =>
      (Reader.elements .byte rest).map fun (bytes, behind) => (some bytes, behind)
  | t :: _ => .error (.unexpected keyTitle t)
  | [] => .error .malformed

/-- The keys as JSON. -/
def key : Reader (Option Bytes) where
  run := readKey
  takes := by
    intro ts a rest h
    unfold readKey at h
    split at h
    · cases h; exact Nat.lt_succ_self _
    · cases h; exact Nat.lt_succ_self _
    · next rest' =>
        cases helements : Reader.elements .byte rest' with
        | error p => rw [helements] at h; cases h
        | ok found =>
            rw [helements] at h
            cases h
            exact Nat.lt_succ_of_lt (Reader.elements_takes _ helements)
    · cases h
    · cases h

/-- The queries as JSON. -/
def record : Record Query where
  title := "struct RangeSpec"
  fields :=
    [ ⟨"from", key.map fun start q => { q with start := start }⟩,
      ⟨"prefix", key.map fun stem q => { q with stem := stem }⟩,
      ⟨"end", key.map fun stop q => { q with stop := stop }⟩,
      ⟨"limit", Reader.int64.map fun limit q => { q with limit := limit }⟩,
      ⟨"reverse", Reader.boolean.map fun reverse q => { q with reverse := reverse }⟩,
      ⟨"exclude_from", Reader.boolean.map fun skip q => { q with skipStart := skip }⟩ ]
  closed := false
  blank := all

/-- The query that a text gives. -/
def parse (text : Bytes) : Except Problem Query :=
  record.reader.readText text

/-- The queries that a text gives as a list. -/
def parseList (text : Bytes) : Except Problem (List Query) :=
  (record.reader.list "a sequence").readText text

/-! ## Writing -/

/-- Items with commas between them. -/
def commaSeparated : List Bytes → Bytes
  | [] => []
  | [item] => item
  | item :: items => item ++ Ascii.comma :: commaSeparated items

/-- A key as it is written. -/
def renderKey : Option Bytes → Bytes
  | none => Bytes.ofText "null"
  | some bytes =>
      Ascii.openBracket ::
        (commaSeparated (bytes.map fun b => Decimal.ofNat b.toNat) ++
          [Ascii.closeBracket])

/-- A truth value as it is written. -/
def renderBool : Bool → Bytes
  | true => Bytes.ofText "true"
  | false => Bytes.ofText "false"

/-- The values of the fields as they are written, in the order of the fields. -/
def renderFields (q : Query) : List Bytes :=
  [ renderKey q.start, renderKey q.stem, renderKey q.stop,
    Decimal.ofInt q.limit.toInt, renderBool q.reverse, renderBool q.skipStart ]

/-- A member as it is written. -/
def renderMember (name : String) (value : Bytes) : Bytes :=
  Ascii.quote :: (Bytes.ofText name ++ Ascii.quote :: Ascii.colon :: value)

/-- The query as it is written: an object with all its fields and no blanks. -/
def render (q : Query) : Bytes :=
  Ascii.openBrace ::
    (commaSeparated (List.zipWith renderMember (record.fields.map Field.name)
      q.renderFields) ++ [Ascii.closeBrace])

end Query

end PagedScan
