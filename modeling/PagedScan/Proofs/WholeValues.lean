import PagedScan.Proofs.ReadingTokens
import PagedScan.Query.Json
import PagedScan.Settings.Json

/-!
# Whole values

`IsValue` says which tokens are those of one value, nested to any depth. The readers
do not work along this grammar. What is not asked for is passed over with no more than
a stack of open brackets, and a reader that expects another type stops at the first
token. So it takes a proof that all of them agree on where a value ends: whatever is
behind the tokens of a value, a reader either takes exactly these or reports a problem
that they alone decide.

For the stack the induction is on the value, with any brackets already open. Within a
list or an object each item leads from where one may begin to where a separator must
come, which is all that is used of it.
-/

namespace PagedScan

namespace Json

/-- The tokens of one value. -/
inductive IsValue : List Token → Prop
  | scalar {t : Token} (h : t.isScalar = true) : IsValue [t]
  | list {tss : List (List Token)} (h : ∀ ts ∈ tss, IsValue ts) : IsValue (listTokens tss)
  | object {members : List Part} (h : ∀ m ∈ members, IsValue m.value) :
      IsValue (objectTokens members)

theorem IsValue.exists_cons {ts : List Token} (h : IsValue ts) :
    ∃ t rest, t ≠ .closeList ∧ ts = t :: rest := by
  cases h with
  | @scalar t ht =>
      refine ⟨t, [], ?_, rfl⟩
      rintro rfl
      cases ht
  | list => exact ⟨_, _, Token.noConfusion, rfl⟩
  | object => exact ⟨_, _, Token.noConfusion, rfl⟩

/-! ## Passing over a value -/

/-- Behind a value, with these brackets open. -/
def resume (brackets : List Bracket) (rest : List Token) : Option (List Token) :=
  match brackets with
  | [] => some rest
  | _ :: _ => skip brackets .separator rest

/-- The token that closes a bracket. -/
def Bracket.close : Bracket → Token
  | .list => .closeList
  | .object => .closeObject

/-- What may come behind the token that opens a bracket. -/
def Bracket.opened : Bracket → Awaiting
  | .list => .firstValue
  | .object => .firstName

section Skip

variable {b : Bracket} {brackets : List Bracket} {awaiting : Awaiting} {ts : List Token}
  {tss : List (List Token)}

theorem skip_scalar {t : Token} (ht : t.isScalar = true) (h : awaiting.admitsValue = true)
    (rest : List Token) : skip brackets awaiting (t :: rest) = resume brackets rest := by
  have hname : awaiting.admitsName = false := by
    cases awaiting <;> first | rfl | cases h
  have hstep : awaiting.advance brackets t = some (brackets, .separator) := by
    cases t with
    | null | boolean | number | string =>
        simp [Awaiting.advance, h, hname, Token.isScalar]
    | _ => cases ht
  rw [skip, hstep]
  cases brackets <;> rfl

theorem skip_close (h : awaiting = b.opened ∨ awaiting = .separator) (rest : List Token) :
    skip (b :: brackets) awaiting (b.close :: rest) = resume brackets rest := by
  have hstep : awaiting.advance (b :: brackets) b.close = some (brackets, .separator) := by
    rcases h with rfl | rfl <;> cases b <;> rfl
  rw [skip, hstep]
  cases brackets <;> rfl

/-- Items are passed over if each of them leads from where one may begin to where a
separator must come. -/
theorem skip_items
    (h : ∀ ts ∈ tss, ∀ awaiting, awaiting = b.opened ∨ awaiting = .afterComma b →
      ∀ rest, skip (b :: brackets) awaiting (ts ++ rest) =
        skip (b :: brackets) .separator rest) (rest : List Token) :
    skip (b :: brackets) b.opened (separated tss ++ b.close :: rest) = resume brackets rest := by
  -- Only the first item comes without a comma, so the induction is on those behind it.
  have hmore : ∀ tss' : List (List Token), (∀ ts ∈ tss', ts ∈ tss) →
      skip (b :: brackets) .separator (tss'.flatMap (Token.comma :: ·) ++ b.close :: rest) =
        resume brackets rest := by
    intro tss' hsub
    induction tss' with
    | nil => exact skip_close (.inr rfl) rest
    | cons ts tss' ih =>
        obtain ⟨hts, htss'⟩ := List.forall_mem_cons.mp hsub
        have hstep : Awaiting.separator.advance (b :: brackets) .comma =
            some (b :: brackets, .afterComma b) := rfl
        rw [List.flatMap_cons, List.append_assoc, List.cons_append, skip, hstep]
        dsimp only
        rw [h ts hts _ (.inr rfl), ih htss']
  cases tss with
  | nil => exact skip_close (.inl rfl) rest
  | cons ts tss =>
      rw [separated, List.append_assoc, h ts List.mem_cons_self _ (.inl rfl)]
      exact hmore tss fun _ hts => List.mem_cons_of_mem _ hts

/-- A value is passed over as a whole, and nothing behind it is. -/
theorem IsValue.skip_append (h : IsValue ts) (hawaiting : awaiting.admitsValue = true)
    (rest : List Token) : skip brackets awaiting (ts ++ rest) = resume brackets rest := by
  induction h generalizing brackets awaiting rest with
  | scalar ht => exact skip_scalar ht hawaiting rest
  | @list tss _ ih =>
      have hopen : awaiting.advance brackets .openList =
          some (.list :: brackets, Bracket.list.opened) := by
        simp [Awaiting.advance, hawaiting, Bracket.opened]
      rw [listTokens, List.cons_append, List.append_assoc, skip, hopen]
      refine skip_items (fun ts hts awaiting ha rest => ?_) rest
      exact ih ts hts (by rcases ha with rfl | rfl <;> rfl) rest
  | @object members _ ih =>
      have hopen : awaiting.advance brackets .openObject =
          some (.object :: brackets, Bracket.object.opened) := by
        simp [Awaiting.advance, hawaiting, Bracket.opened]
      rw [objectTokens, List.cons_append, List.append_assoc, skip, hopen]
      refine skip_items (fun ts hts awaiting ha rest => ?_) rest
      obtain ⟨m, hm, rfl⟩ := List.mem_map.mp hts
      have hname : awaiting.advance (.object :: brackets) (.string m.name) =
          some (.object :: brackets, .colon) := by
        rcases ha with rfl | rfl <;> rfl
      have hcolon : Awaiting.colon.advance (.object :: brackets) .colon =
          some (.object :: brackets, .value) := rfl
      rw [Part.tokens, List.cons_append, List.cons_append, skip, hname]
      dsimp only
      rw [skip, hcolon]
      exact ih m hm rfl rest

end Skip

/-! ## Readers settle values -/

namespace Reader

variable {α β : Type} {r : Reader α} {ts : List Token}

theorem settles_of_error {p : Problem} (h : ∀ rest, r.run (ts ++ rest) = .error p) :
    r.Settles ts :=
  @settles_of_run _ _ _ (.error p) h

theorem Settles.map (h : r.Settles ts) (f : α → β) : (r.map f).Settles ts := by
  refine @settles_of_run _ _ _ ((r.answer ts).map f) fun rest => ?_
  show (r.run (ts ++ rest)).map _ = _
  rw [h rest]
  cases r.answer ts <;> rfl

/-- A reader of scalars settles other values too, by refusing them at their first token. -/
theorem settles_scalar {accept : Token → Except Problem α}
    (hlist : ∃ p, accept .openList = .error p) (hobject : ∃ p, accept .openObject = .error p)
    (h : IsValue ts) : (scalar accept).Settles ts := by
  have hrefused : ∀ {t : Token} {ts : List Token}, (∃ p, accept t = .error p) →
      (scalar accept).Settles (t :: ts) := by
    rintro t ts ⟨p, hp⟩
    have hrun : ∀ rest, (scalar accept).run (t :: ts ++ rest) = .error p := fun rest => by
      show (accept t).map _ = _
      rw [hp]
      rfl
    exact settles_of_error hrun
  cases h with
  | @scalar t _ => exact @settles_of_run _ _ _ (accept t) fun _ => rfl
  | list => exact hrefused hlist
  | object => exact hrefused hobject

theorem settles_boolean (h : IsValue ts) : boolean.Settles ts :=
  settles_scalar ⟨_, rfl⟩ ⟨_, rfl⟩ h

theorem settles_unit (h : IsValue ts) : unit.Settles ts :=
  settles_scalar ⟨_, rfl⟩ ⟨_, rfl⟩ h

theorem settles_integer (expected : String) (low high : Int) (h : IsValue ts) :
    (integer expected low high).Settles ts :=
  settles_scalar ⟨_, rfl⟩ ⟨_, rfl⟩ h

/-- What nobody asks for is taken whatever it is. -/
theorem ignored_takes (h : IsValue ts) : ignored.Takes ts () where
  run rest := by
    have hskip : skip [] .value (ts ++ rest) = some rest := h.skip_append rfl rest
    rw [ignored]
    dsimp only
    rw [hskip]
  begins := by
    obtain ⟨t, rest, ht, rfl⟩ := h.exists_cons
    simpa using ht

/-! ### Lists -/

section Lists

variable {tss : List (List Token)}

theorem moreElements_of_settles (h : ∀ ts ∈ tss, r.Settles ts) (rest : List Token) :
    moreElements r (tss.flatMap (Token.comma :: ·) ++ .closeList :: rest) =
      (tss.mapM r.answer).map (·, rest) := by
  induction tss with
  | nil =>
      rw [List.flatMap_nil, List.nil_append, moreElements]
      rfl
  | cons ts tss ih =>
      obtain ⟨hts, htss⟩ := List.forall_mem_cons.mp h
      have hrun := hts (tss.flatMap (Token.comma :: ·) ++ .closeList :: rest)
      rw [List.flatMap_cons, List.append_assoc, List.cons_append, moreElements, List.mapM_cons]
      cases hanswer : r.answer ts with
      | error p =>
          rw [hanswer] at hrun
          split
          · next heq => rw [hrun] at heq; cases heq; rfl
          · next heq => rw [hrun] at heq; cases heq
      | ok a =>
          rw [hanswer] at hrun
          split
          · next heq => rw [hrun] at heq; cases heq
          · next heq =>
              rw [hrun] at heq
              cases heq
              rw [ih htss]
              show _ = Except.map _ (Except.bind (tss.mapM r.answer) _)
              cases tss.mapM r.answer <;> rfl

theorem elements_of_settles (hvalues : ∀ ts ∈ tss, IsValue ts) (h : ∀ ts ∈ tss, r.Settles ts)
    (rest : List Token) :
    elements r (separated tss ++ .closeList :: rest) = (tss.mapM r.answer).map (·, rest) := by
  cases tss with
  | nil => rfl
  | cons ts tss =>
      obtain ⟨hts, htss⟩ := List.forall_mem_cons.mp h
      obtain ⟨t, more, ht, hcons⟩ := (hvalues ts List.mem_cons_self).exists_cons
      rw [separated, List.append_assoc, elements, List.mapM_cons]
      · rw [hts]
        cases r.answer ts with
        | error p => rfl
        | ok a =>
            show (moreElements r _).map _ = _
            rw [moreElements_of_settles htss]
            show _ = Except.map _ (Except.bind (tss.mapM r.answer) _)
            cases tss.mapM r.answer <;> rfl
      · intro rest' heq
        rw [hcons] at heq
        exact ht (List.cons.inj heq).1

end Lists

end Reader

/-- A record settles its members if its fields settle values, since it passes over
whatever is no field. -/
theorem Record.settles_of_isValue {α : Type} {r : Record α}
    (hfields : ∀ f ∈ r.fields, ∀ ts, IsValue ts → f.reader.Settles ts)
    {m : Part} (h : IsValue m.value) : r.Settles m := by
  intro seen name reader _ hreader
  rw [memberReader] at hreader
  split at hreader
  · next f hf =>
      split at hreader
      · cases hreader
      · cases hreader
        exact hfields f (List.mem_of_find?_eq_some hf) _ h
  · split at hreader
    · cases hreader
    · cases hreader
      exact ((Reader.ignored_takes h).map _).settles

end Json

/-! ## The readers of queries and of settings -/

open Json

namespace Query

variable {ts : List Token} {tss : List (List Token)}

theorem readKey_listTokens (h : ∀ ts ∈ tss, IsValue ts) (rest : List Token) :
    readKey (listTokens tss ++ rest) =
      ((tss.mapM Reader.byte.answer).map some).map (·, rest) := by
  have hbytes : ∀ ts ∈ tss, Reader.byte.Settles ts := fun ts hts =>
    (Reader.settles_integer _ _ _ (h ts hts)).map _
  rw [listTokens, List.cons_append, List.append_assoc, List.singleton_append, readKey,
    Reader.elements_of_settles h hbytes]
  cases tss.mapM Reader.byte.answer <;> rfl

theorem key_answer_listTokens (h : ∀ ts ∈ tss, IsValue ts) :
    key.answer (listTokens tss) = (tss.mapM Reader.byte.answer).map some :=
  Reader.answer_of_run (readKey_listTokens h)

theorem key_settles (h : IsValue ts) : key.Settles ts := by
  cases h with
  | @scalar t ht =>
      cases t with
      | null => exact fun _ => rfl
      | string text =>
          cases text with
          | some text => exact fun _ => rfl
          | none => exact Reader.settles_of_error fun _ => rfl
      | boolean | number => exact Reader.settles_of_error fun _ => rfl
      | _ => cases ht
  | list hvalues => exact Reader.settles_of_run (readKey_listTokens hvalues)
  | object => exact Reader.settles_of_error fun _ => rfl

theorem fields_settle : ∀ f ∈ record.fields, ∀ ts, IsValue ts → f.reader.Settles ts := by
  simp only [record, List.forall_mem_cons, List.not_mem_nil, false_implies, implies_true, and_true]
  exact ⟨fun _ h => (key_settles h).map _, fun _ h => (key_settles h).map _,
    fun _ h => (key_settles h).map _, fun _ h => ((Reader.settles_integer _ _ _ h).map _).map _,
    fun _ h => (Reader.settles_boolean h).map _, fun _ h => (Reader.settles_boolean h).map _⟩

end Query

namespace FailurePolicy

variable {ts : List Token}

theorem closing_append (policy : FailurePolicy) (h : IsValue ts) (rest : List Token) :
    closing policy (.colon :: (ts ++ .closeObject :: rest)) =
      ((Reader.unit.answer ts).map fun _ => policy).map (·, rest) := by
  rw [closing, Reader.settles_unit h]
  cases Reader.unit.answer ts <;> rfl

/-- The member must be the only one. -/
theorem closing_append_comma (policy : FailurePolicy) (h : IsValue ts) (rest : List Token) :
    closing policy (.colon :: (ts ++ .comma :: rest)) =
      (Reader.unit.answer ts).bind fun _ => .error .malformed := by
  rw [closing, Reader.settles_unit h]
  cases Reader.unit.answer ts <;> rfl

theorem settles_object {members : List Part}
    (h : ∀ m ∈ members, IsValue m.value) : reader.Settles (objectTokens members) := by
  cases members with
  | nil => exact Reader.settles_of_error fun _ => rfl
  | cons m members =>
      obtain ⟨_ | name, ts⟩ := m
      · exact Reader.settles_of_error fun _ => rfl
      · have hvalue : IsValue ts := h _ List.mem_cons_self
        have hrun : ∀ ts, reader.run ts = FailurePolicy.read ts := fun _ => rfl
        have htokens : ∀ rest, objectTokens (⟨some name, ts⟩ :: members) ++ rest =
            .openObject :: .string (some name) :: .colon :: (ts ++
              ((members.map Part.tokens).flatMap (Token.comma :: ·) ++
                .closeObject :: rest)) := by
          intro rest
          simp [objectTokens, separated, Part.tokens]
        cases hname : ofName name with
        | error p =>
            have hread : ∀ rest, reader.run (objectTokens (⟨some name, ts⟩ :: members) ++ rest) =
                .error p := by
              intro rest
              rw [htokens, hrun, FailurePolicy.read, hname]
            exact Reader.settles_of_error hread
        | ok policy =>
            have hread : ∀ rest, reader.run (objectTokens (⟨some name, ts⟩ :: members) ++ rest) =
                closing policy (.colon :: (ts ++
                  ((members.map Part.tokens).flatMap (Token.comma :: ·) ++
                    .closeObject :: rest))) := by
              intro rest
              rw [htokens, hrun, FailurePolicy.read, hname]
            cases members with
            | nil =>
                exact Reader.settles_of_run fun rest =>
                  (hread rest).trans (closing_append policy hvalue rest)
            | cons m' members =>
                refine @Reader.settles_of_run _ _ _
                  ((Reader.unit.answer ts).bind fun _ => .error .malformed) fun rest => ?_
                refine (hread rest).trans ((closing_append_comma policy hvalue _).trans ?_)
                cases Reader.unit.answer ts <;> rfl

theorem reader_settles (h : IsValue ts) : reader.Settles ts := by
  cases h with
  | @scalar t ht =>
      cases t with
      | string text =>
          cases text with
          | some name => exact @Reader.settles_of_run _ _ _ (ofName name) fun _ => rfl
          | none => exact Reader.settles_of_error fun _ => rfl
      | null | boolean | number => exact Reader.settles_of_error fun _ => rfl
      | _ => cases ht
  | list => exact Reader.settles_of_error fun _ => rfl
  | object hvalues => exact settles_object hvalues

end FailurePolicy

namespace Settings

theorem fields_settle : ∀ f ∈ record.fields, ∀ ts, IsValue ts → f.reader.Settles ts := by
  simp only [record, List.forall_mem_cons, List.not_mem_nil, false_implies, implies_true, and_true]
  exact ⟨fun _ h => ((Reader.settles_integer _ _ _ h).map _).map _,
    fun _ h => (FailurePolicy.reader_settles h).map _⟩

end Settings

end PagedScan
