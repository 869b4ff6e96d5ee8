import PagedScan.Proofs.ReadingTokens

/-!
# A written query reads back

The writer knows one way to write a key, and the reader three ways to read one, so
the two do not mirror each other and the round trip is not an inverse computed
step by step. They meet in the tokens: `Spelling` says which ones a text spells,
`ReadingTokens` what is made of them, and here both are said of a query, field by
field.

A key that is absent is the word `null` and an empty one is an empty list, two
different first tokens; so the two are not confused, and no text in between needs
to be valid UTF-8, because bytes are written as numbers.
-/

namespace PagedScan.Query

open Json

/-! ## Keys -/

/-- The tokens of a key as it is written. -/
def keyTokens : Option Bytes → List Token
  | none => [.null]
  | some bytes => listTokens (bytes.map fun b => [.number (.ofInt b.toNat)])

theorem spells_renderKey (k : Option Bytes) : Spells (renderKey k) (keyTokens k) := by
  cases k with
  | none => exact .null
  | some bytes =>
      refine .list ?_
      rw [List.forall₂_map_left_iff, List.forall₂_map_right_iff, List.forall₂_same]
      exact fun b _ => .integer b.toNat

theorem key_takes (k : Option Bytes) : key.Takes (keyTokens k) k where
  run rest := by
    cases k with
    | none => rfl
    | some bytes =>
        have helements : Reader.elements .byte
            (separated (bytes.map fun b => [.number (.ofInt b.toNat)]) ++ .closeList :: rest) =
              .ok (bytes, rest) := by
          refine elements_of_takes ?_ rest
          rw [List.forall₂_map_left_iff, List.forall₂_same]
          exact fun b _ => .byte b
        show readKey (keyTokens (some bytes) ++ rest) = _
        rw [keyTokens, listTokens, List.cons_append, List.append_assoc, List.singleton_append,
          readKey, helements]
        rfl
  begins := by cases k <;> simp [keyTokens, listTokens]

/-! ## Queries -/

/-- The tokens of the values of the fields. -/
def fieldTokens (q : Query) : List (List Token) :=
  [ keyTokens q.start, keyTokens q.stem, keyTokens q.stop,
    [.number (.ofInt q.limit.toInt)], [.boolean q.reverse], [.boolean q.skipStart] ]

theorem spells_renderFields (q : Query) :
    List.Forall₂ Spells q.renderFields q.fieldTokens :=
  .cons (spells_renderKey q.start) <| .cons (spells_renderKey q.stem) <|
    .cons (spells_renderKey q.stop) <| .cons (.integer q.limit.toInt) <|
    .cons (.boolean q.reverse) <| .cons (.boolean q.skipStart) .nil

/-- Every field is overwritten, so nothing is left of the blank query. -/
theorem fills_fieldTokens (q : Query) : Record.Fills record.fields q.fieldTokens all q :=
  .put (key_takes q.start) <| .put (key_takes q.stem) <| .put (key_takes q.stop) <|
    .put (.int64 q.limit) <| .put (.boolean q.reverse) <| .put (.boolean q.skipStart) (.nil q)

theorem nodup_names : (record.fields.map Field.name).Nodup := by decide

theorem isPlain_names : ∀ name ∈ record.fields.map Field.name, IsPlain name := by decide

theorem parse_render (q : Query) : parse (render q) = .ok q :=
  Record.readText_fields nodup_names q.fills_fieldTokens
    (.object (Spells.renderMembers isPlain_names q.spells_renderFields))

/-- The query as the list of its fields, in the order of their declaration. -/
def renderList (q : Query) : Bytes :=
  Ascii.openBracket :: (commaSeparated q.renderFields ++ [Ascii.closeBracket])

theorem parse_renderList (q : Query) : parse (renderList q) = .ok q :=
  (Record.reader_takes_list q.fills_fieldTokens).readText (.list q.spells_renderFields)

/-- Whatever a query holds, its text reads back as that query, and so does the list
of the same field texts; so two queries never share a text. -/
theorem reads_back :
    (∀ q, parse (render q) = .ok q) ∧ (∀ q, parse (renderList q) = .ok q) ∧
      Function.Injective render := by
  refine ⟨parse_render, parse_renderList, fun q q' heq => ?_⟩
  have hread : Except.ok q = (Except.ok q' : Except Problem Query) :=
    calc Except.ok q = parse (render q) := (parse_render q).symm
      _ = parse (render q') := by rw [heq]
      _ = Except.ok q' := parse_render q'
  exact Except.ok.inj hread

end PagedScan.Query
