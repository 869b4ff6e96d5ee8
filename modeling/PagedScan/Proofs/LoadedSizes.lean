import Mathlib.Algebra.Group.Nat.Defs
import PagedScan.Proofs.KeySpellings

/-!
# Which page sizes can be loaded

A page size goes through three hands before it is one. The numeral may have any number of
digits, and what it means changes with their number: as long as a word holds it, it is an
integer, then a fractional number, though there is no fraction in it, and in the end nothing
at all. The reader takes integers only, and puts them into a word. The check looks at that
word and never sees the numeral. So nothing but the reader stands between a numeral that is
too long and a word that it would have wrapped to, and the proof follows the digits up to
there: what the reader lets through is the number the digits denote, whatever their number.

The policy makes no difference to any of this, and has to be readable so that it does not.
For a text of any other kind no more is said than that nothing gets around the check.
-/

namespace PagedScan

open Json

/-! ## What may be written -/

/-- A number in digits alone, none of them in front for nothing, with blanks around them. -/
inductive IsPlainNumeral : Bytes → Nat → Prop
  | digits {ds : List Nat} (h : Number.IsWhole ds) :
      IsPlainNumeral (ds.map Decimal.spell) (Decimal.ofDigits ds)
  | padded {before text behind : Bytes} {n : Nat} (hbefore : IsBlank before)
      (h : IsPlainNumeral text n) (hbehind : IsBlank behind) :
      IsPlainNumeral (before ++ (text ++ behind)) n

/-- A policy by its name, or as an object with that name and `null` for its only member. -/
inductive IsPolicyText : Bytes → FailurePolicy → Prop
  | name {value : Bytes} {name : String} {policy : FailurePolicy}
      (hpolicy : (name, policy) ∈ [("continue", .proceed), ("abort", .abort)])
      (h : IsTextLiteral value name) : IsPolicyText value policy
  | object {inner before behind : Bytes} {m : Member} {name : String} {policy : FailurePolicy}
      (hpolicy : (name, policy) ∈ [("continue", .proceed), ("abort", .abort)])
      (hinner : IsBlank inner) (hm : m.HasName) (hname : m.IsNamed name)
      (hbefore : IsBlank before) (hbehind : IsBlank behind)
      (hvalue : m.value = before ++ (Bytes.ofText "null" ++ behind)) :
      IsPolicyText (membersText inner [m]) policy
  | padded {before value behind : Bytes} {policy : FailurePolicy} (hbefore : IsBlank before)
      (h : IsPolicyText value policy) (hbehind : IsBlank behind) :
      IsPolicyText (before ++ (value ++ behind)) policy

theorem isPlainNumeral_ofNat (n : Nat) : IsPlainNumeral (Decimal.ofNat n) n := by
  have h := IsPlainNumeral.digits (Number.isWhole_digits n)
  rwa [Decimal.ofDigits_digits] at h

/-! ## Sizes as they are read -/

/-- Digits that no word holds are no integer any more. -/
theorem Json.Number.value_digits_of_le {ds : List Nat} (h : UInt64.size ≤ Decimal.ofDigits ds) :
    value ⟨false, ds, none, none⟩ = .fractional ∨ value ⟨false, ds, none, none⟩ = .tooLarge := by
  cases hvalue : value ⟨false, ds, none, none⟩ with
  | integer z =>
      obtain ⟨-, -, hword, hsigned⟩ := value_eq_integer_iff.mp hvalue
      have hz : (Decimal.ofDigits ds : Int) = z := hsigned
      simp only [inWordRange, Bool.and_eq_true, decide_eq_true_eq] at hword
      omega
  | fractional => exact .inl rfl
  | tooLarge => exact .inr rfl

theorem Json.Reader.integer_answer_of_fractional {expected : String} {low high : Int} {n : Number}
    (h : n.value = .fractional) :
    (integer expected low high).answer [.number n] = .error (.wrongType .fractional expected) := by
  rw [integer, answer_scalar]
  dsimp only
  rw [h, Problem.unexpected, Problem.found?, h]

theorem Json.Reader.integer_answer_of_tooLarge {expected : String} {low high : Int} {n : Number}
    (h : n.value = .tooLarge) :
    (integer expected low high).answer [.number n] = .error .malformed := by
  rw [integer, answer_scalar]
  dsimp only
  rw [h, Problem.unexpected, Problem.found?, h]

namespace IsPlainNumeral

variable {text : Bytes} {n : Nat}

theorem exists_digits (h : IsPlainNumeral text n) :
    ∃ ds, Decimal.ofDigits ds = n ∧ IsElement text ∧
      tokens text = [.number ⟨false, ds, none, none⟩] := by
  induction h with
  | @digits ds h =>
      have hnumeral := Number.isNumeral_digits h
      exact ⟨ds, rfl, .numeral hnumeral, (Spells.numeral hnumeral).tokens_eq⟩
  | padded hbefore _ hbehind ih =>
      obtain ⟨ds, hn, helement, htokens⟩ := ih
      refine ⟨ds, hn, .padded hbefore helement hbehind, ?_⟩
      rw [helement.tokens_padded hbefore hbehind, htokens]

theorem isElement (h : IsPlainNumeral text n) : IsElement text := by
  obtain ⟨_, -, helement, -⟩ := h.exists_digits
  exact helement

theorem answer_of_lt (h : IsPlainNumeral text n) (hn : n < UInt64.size) :
    Reader.uint64.answer (tokens text) = .ok (.ofNat n) := by
  obtain ⟨ds, rfl, -, htokens⟩ := h.exists_digits
  have hvalue : Number.value ⟨false, ds, none, none⟩ = .integer (Decimal.ofDigits ds) :=
    Number.value_digits hn
  have hinteger : (Reader.integer "usize" 0 (UInt64.size - 1)).answer
      [.number ⟨false, ds, none, none⟩] = .ok (Decimal.ofDigits ds) :=
    Reader.integer_answer_iff.mpr ⟨hvalue, by omega, by omega⟩
  rw [htokens, Reader.uint64, Reader.answer_map, hinteger]
  rfl

/-- A size that no word holds is refused, not cut to fit. -/
theorem answer_of_le (h : IsPlainNumeral text n) (hn : UInt64.size ≤ n) :
    Reader.uint64.answer (tokens text) = .error (.wrongType .fractional "usize") ∨
      Reader.uint64.answer (tokens text) = .error .malformed := by
  obtain ⟨ds, rfl, -, htokens⟩ := h.exists_digits
  rw [htokens, Reader.uint64, Reader.answer_map]
  rcases Number.value_digits_of_le hn with hvalue | hvalue
  · rw [Reader.integer_answer_of_fractional hvalue]
    exact .inl rfl
  · rw [Reader.integer_answer_of_tooLarge hvalue]
    exact .inr rfl

end IsPlainNumeral

/-! ## Policies as they are read -/

theorem FailurePolicy.answer_of_name {name : String} {policy : FailurePolicy}
    (h : (name, policy) ∈ [("continue", proceed), ("abort", abort)]) :
    reader.answer [.string (some name)] = .ok policy ∧
      reader.answer (objectTokens [⟨some name, [.null]⟩]) = .ok policy := by
  simp only [List.mem_cons, Prod.mk.injEq, List.not_mem_nil, or_false] at h
  rcases h with ⟨rfl, rfl⟩ | ⟨rfl, rfl⟩ <;> exact ⟨rfl, rfl⟩

theorem IsPolicyText.answer_eq {value : Bytes} {policy : FailurePolicy}
    (h : IsPolicyText value policy) :
    IsElement value ∧ FailurePolicy.reader.answer (tokens value) = .ok policy := by
  induction h with
  | name hpolicy h =>
      obtain ⟨helement, htokens⟩ := h.tokens_eq
      rw [htokens]
      exact ⟨helement, (FailurePolicy.answer_of_name hpolicy).1⟩
  | @object _ _ _ m name policy hpolicy hinner hm hname hbefore hbehind hvalue =>
      have hnull : IsElement m.value := hvalue ▸ .padded hbefore .null hbehind
      have hnamed : ∀ m' ∈ [m], m'.HasName := by simpa using hm
      have hvalues : ∀ m' ∈ [m], IsElement m'.value := by simpa using hnull
      have hpart : m.part = ⟨some name, [.null]⟩ := by
        rw [hm.part_eq hname, hvalue, IsElement.null.tokens_padded hbefore hbehind,
          Spells.null.tokens_eq]
      refine ⟨.object hinner hnamed hvalues, ?_⟩
      rw [tokens_membersText hinner hnamed hvalues, List.map_cons, List.map_nil, hpart]
      exact (FailurePolicy.answer_of_name hpolicy).2
  | padded hbefore _ hbehind ih =>
      rw [ih.1.tokens_padded hbefore hbehind]
      exact ⟨.padded hbefore ih.1 hbehind, ih.2⟩

/-! ## Settings as they are read -/

theorem Json.Record.readAll_cons_of_reader {α : Type} {r : Record α} {seen : List String}
    {name : String} {reader : Reader (α → α)} (h : r.memberReader seen name = .ok reader) (a : α)
    (ts : List Token) (members : List Part) :
    r.readAll seen a (⟨some name, ts⟩ :: members) =
      (reader.answer ts).bind fun change => r.readAll (name :: seen) (change a) members := by
  rw [readAll, memberAnswer, h]
  dsimp only
  cases reader.answer ts <;> rfl

namespace Settings

variable {text : Bytes} {ts : List Token} {seen : List String} {n : Nat} {policy : FailurePolicy}

theorem readAll_cons_size (h : "page_size" ∉ seen) (s : Settings) (members : List Part) :
    record.readAll seen s (⟨some "page_size", ts⟩ :: members) =
      (Reader.uint64.answer ts).bind fun size =>
        record.readAll ("page_size" :: seen) (s.withPageSize size) members := by
  have hreader : record.memberReader seen "page_size" =
      .ok (Reader.uint64.map fun size s => s.withPageSize size) := if_neg h
  rw [Record.readAll_cons_of_reader hreader, Reader.answer_map]
  cases Reader.uint64.answer ts <;> rfl

theorem readAll_cons_policy (h : "error_policy" ∉ seen)
    (hpolicy : FailurePolicy.reader.answer ts = .ok policy) (s : Settings) (members : List Part) :
    record.readAll seen s (⟨some "error_policy", ts⟩ :: members) =
      record.readAll ("error_policy" :: seen) (s.withPolicy policy) members := by
  have hreader : record.memberReader seen "error_policy" =
      .ok (FailurePolicy.reader.map fun policy s => s.withPolicy policy) := if_neg h
  rw [Record.readAll_cons_of_reader hreader, Reader.answer_map, hpolicy]
  rfl

theorem readAll_size :
    record.readAll [] .standard [⟨some "page_size", ts⟩] =
      (Reader.uint64.answer ts).map fun size => ⟨size, .proceed⟩ := by
  rw [readAll_cons_size List.not_mem_nil]
  cases Reader.uint64.answer ts <;> rfl

/-- In either order what is read is the size with the policy beside it, or the problem with
the size. -/
theorem readAll_size_policy {ts' : List Token} {members : List Part}
    (hpolicy : FailurePolicy.reader.answer ts' = .ok policy)
    (hmembers : members = [⟨some "error_policy", ts'⟩, ⟨some "page_size", ts⟩] ∨
      members = [⟨some "page_size", ts⟩, ⟨some "error_policy", ts'⟩]) :
    record.readAll [] .standard members =
      (Reader.uint64.answer ts).map fun size => ⟨size, policy⟩ := by
  rcases hmembers with rfl | rfl
  · rw [readAll_cons_policy List.not_mem_nil hpolicy, readAll_cons_size (by decide)]
    cases Reader.uint64.answer ts <;> rfl
  · rw [readAll_cons_size List.not_mem_nil]
    cases Reader.uint64.answer ts with
    | error p => rfl
    | ok size => exact readAll_cons_policy (by decide) hpolicy _ _

/-! ## Settings as they are loaded -/

/-- Why a page size cannot be loaded: there is none, it is more than may be loaded, or no word
holds it. -/
inductive SizeRefused : Nat → BadSettings → Prop
  | none : SizeRefused 0 .noRoom
  | tooMuch {n : Nat} (hmax : 2 ^ 20 < n) (hword : n < 2 ^ 64) :
      SizeRefused n (.tooMuchRoom n (2 ^ 20))
  | fractional {n : Nat} (hword : 2 ^ 64 ≤ n) :
      SizeRefused n (.unreadable (.wrongType .fractional "usize"))
  | malformed {n : Nat} (hword : 2 ^ 64 ≤ n) : SizeRefused n (.unreadable .malformed)

/-- The answer is settings with this page size and this policy if such a size may be loaded,
and otherwise says why it may not. -/
structure LoadsSize (answer : Except Error Settings) (n : Nat) (policy : FailurePolicy) :
    Prop where
  ok_iff : ∀ s, answer = .ok s ↔
    (1 ≤ n ∧ n ≤ 2 ^ 20) ∧ s.pageSize.toNat = n ∧ s.policy = policy
  refused : ¬ (1 ≤ n ∧ n ≤ 2 ^ 20) →
    ∃ cause, SizeRefused n cause ∧ answer = .error (.settings cause)

theorem LoadsSize.of_refused {cause : BadSettings} (h : SizeRefused n cause)
    (policy : FailurePolicy) : LoadsSize (.error (.settings cause)) n policy := by
  have hout : ¬ (1 ≤ n ∧ n ≤ 2 ^ 20) := by
    cases h <;> omega
  refine ⟨fun s => ⟨?_, ?_⟩, fun _ => ⟨cause, h, rfl⟩⟩
  · intro hloaded
    cases hloaded
  · intro ⟨hin, _⟩
    exact absurd hin hout

/-- The check refuses a size by its value, and lets the others through as they are. -/
theorem loadsSize_check (s : Settings) :
    LoadsSize (s.check.mapError .settings) s.pageSize.toNat s.policy := by
  have hzero : s.pageSize = 0 ↔ s.pageSize.toNat = 0 := UInt64.toNat_inj.symm
  have hmax : maxPageSize = 2 ^ 20 := rfl
  rw [check]
  split
  · next hnone =>
      rw [hzero.mp hnone]
      exact .of_refused .none _
  · next hsome =>
      rw [hzero] at hsome
      rw [hmax]
      split
      · next hlarge => exact .of_refused (.tooMuch hlarge s.pageSize.toNat_lt) _
      · next hfits =>
          have hin : 1 ≤ s.pageSize.toNat ∧ s.pageSize.toNat ≤ 2 ^ 20 := by omega
          refine ⟨fun s' => ?_, fun hout => absurd hin hout⟩
          constructor
          · intro h
            cases h
            exact ⟨hin, rfl, rfl⟩
          · intro ⟨_, hsize, hpolicy⟩
            obtain ⟨size', policy'⟩ := s'
            obtain rfl := UInt64.toNat_inj.mp hsize
            obtain rfl : policy' = s.policy := hpolicy
            rfl

theorem ofBytes_of_ok {s : Settings} (h : record.reader.readText text = .ok s) :
    ofBytes text = s.check.mapError .settings := by
  rw [ofBytes, parse, h]

theorem loadsSize_of_readText {value : Bytes} (h : IsPlainNumeral value n)
    (hread : record.reader.readText text =
      (Reader.uint64.answer (tokens value)).map fun size => ⟨size, policy⟩) :
    LoadsSize (ofBytes text) n policy := by
  rcases Nat.lt_or_ge n UInt64.size with hword | hword
  · rw [h.answer_of_lt hword] at hread
    have hchecked := loadsSize_check ⟨.ofNat n, policy⟩
    rw [UInt64.toNat_ofNat_of_lt' hword] at hchecked
    rw [ofBytes_of_ok hread]
    exact hchecked
  · rcases h.answer_of_le hword with hanswer | hanswer
    · rw [hanswer] at hread
      rw [ofBytes_of_error hread]
      exact .of_refused (.fractional hword) policy
    · rw [hanswer] at hread
      rw [ofBytes_of_error hread]
      exact .of_refused (.malformed hword) policy

theorem ofBytes_inRange_or_error (text : Bytes) :
    (∃ s, ofBytes text = .ok s ∧ 1 ≤ s.pageSize.toNat ∧ s.pageSize.toNat ≤ 2 ^ 20) ∨
      ∃ cause, ofBytes text = .error (.settings cause) := by
  cases hread : record.reader.readText text with
  | error p => exact .inr ⟨_, ofBytes_of_error hread⟩
  | ok s =>
      rw [ofBytes_of_ok hread]
      obtain ⟨hok, hrefused⟩ := loadsSize_check s
      by_cases hin : 1 ≤ s.pageSize.toNat ∧ s.pageSize.toNat ≤ 2 ^ 20
      · exact .inl ⟨s, (hok s).mpr ⟨hin, rfl, rfl⟩, hin⟩
      · obtain ⟨cause, -, herror⟩ := hrefused hin
        exact .inr ⟨cause, herror⟩

/-- Every number can be written in digits. A page size that is written so, by itself or with a
policy before it or behind it, is loaded as it is written if it is from 1 to `2 ^ 20`, and
refused otherwise. And whatever a text says, what is loaded from it has a size in that range,
and all that can go wrong is that the settings cannot be used. -/
theorem sizes_loaded :
    (∀ n, IsPlainNumeral (Decimal.ofNat n) n ∧
      ∀ (o : Object) (m : Member), o.IsWritten → m.IsNamed "page_size" →
        IsPlainNumeral m.value n →
        (o.members = [m] → LoadsSize (ofBytes o.text) n .proceed) ∧
        ∀ (m' : Member) (policy : FailurePolicy), m'.IsNamed "error_policy" →
          IsPolicyText m'.value policy → o.members = [m', m] ∨ o.members = [m, m'] →
          LoadsSize (ofBytes o.text) n policy) ∧
    ∀ text, (∃ s, ofBytes text = .ok s ∧ 1 ≤ s.pageSize.toNat ∧ s.pageSize.toNat ≤ 2 ^ 20) ∨
      ∃ cause, ofBytes text = .error (.settings cause) := by
  refine ⟨fun n => ⟨isPlainNumeral_ofNat n, fun o m ho hname hvalue => ?_⟩,
    ofBytes_inRange_or_error⟩
  have hread : ∀ {policy}, record.readAll [] .standard (o.members.map Member.part) =
      (Reader.uint64.answer (tokens m.value)).map (fun size => ⟨size, policy⟩) →
      LoadsSize (ofBytes o.text) n policy := fun h =>
    loadsSize_of_readText hvalue ((ho.readText_eq fields_settle).trans h)
  have hpart : ∀ {m name}, m ∈ o.members → m.IsNamed name →
      m.part = ⟨some name, tokens m.value⟩ := fun hm => (ho.members _ hm).part_eq
  constructor
  · intro hmembers
    rw [hmembers, List.map_cons, List.map_nil, hpart (by simp [hmembers]) hname] at hread
    exact hread readAll_size
  · intro m' policy hname' hpolicy hmembers
    have hmem : m ∈ o.members ∧ m' ∈ o.members := by
      rcases hmembers with hmembers | hmembers <;> simp [hmembers]
    have hsize := hpart hmem.1 hname
    have hother := hpart hmem.2 hname'
    refine hread (readAll_size_policy hpolicy.answer_eq.2 ?_)
    rw [← hsize, ← hother]
    rcases hmembers with hmembers | hmembers <;> simp [hmembers]

/-- The largest size, behind a policy that is written as an object, and a size that a word
would have wrapped to the standard one. -/
theorem sizes_loaded_at_bounds :
    ofBytes (Bytes.ofText
      "\x7b\"error_policy\":\x7b\"abort\":null\x7d,\"page_size\":1048576\x7d") =
        .ok ⟨1048576, .abort⟩ ∧
    ∃ p, ofBytes (Bytes.ofText "\x7b\"page_size\":18446744073709552128\x7d") =
      .error (.settings (.unreadable p)) := by
  have hwhole : Number.IsWhole [1, 0, 4, 8, 5, 7, 6] := ⟨⟨by simp, by decide⟩, by simp⟩
  have hlong : Number.IsWhole [1, 8, 4, 4, 6, 7, 4, 4, 0, 7, 3, 7, 0, 9, 5, 5, 2, 1, 2, 8] :=
    ⟨⟨by simp, by decide⟩, by simp⟩
  have hlargest : IsPlainNumeral (Bytes.ofText "1048576") 1048576 := .digits hwhole
  have hwrapping : IsPlainNumeral (Bytes.ofText "18446744073709552128") 18446744073709552128 :=
    .digits hlong
  have hname : ∀ {name}, IsPlain name → ∀ value, (Member.plain name value).IsNamed name :=
    fun h _ => (Member.isNamed_plain_iff h).mpr rfl
  have hnull : (Member.plain "abort" (Bytes.ofText "null")).IsWritten := .plain (by decide) .null
  have habort : IsPolicyText (membersText [] [.plain "abort" (Bytes.ofText "null")]) .abort :=
    .object (.tail _ (.head _)) .nil hnull.toHasName (hname (by decide) _) .nil .nil rfl
  have hsized : ∀ {value n}, IsPlainNumeral value n → (Member.plain "page_size" value).IsWritten :=
    fun h => .plain (by decide) h.isElement
  obtain ⟨hloads, -⟩ := sizes_loaded
  constructor
  · have hwritten : (Object.compact [.plain "error_policy" (membersText [] [.plain "abort"
        (Bytes.ofText "null")]), .plain "page_size" (Bytes.ofText "1048576")]).IsWritten :=
      .compact (by simpa using ⟨.plain (by decide) habort.answer_eq.1, hsized hlargest⟩)
    have hloaded := ((hloads _).2 _ _ hwritten (hname (by decide) _) hlargest).2 _ _
      (hname (by decide) _) habort (.inl rfl)
    exact (hloaded.ok_iff _).mpr ⟨by decide, by decide, rfl⟩
  · have hwritten : (Object.compact [.plain "page_size"
        (Bytes.ofText "18446744073709552128")]).IsWritten :=
      .compact (by simpa using hsized hwrapping)
    obtain ⟨cause, hcause, herror⟩ := (((hloads _).2 _ _ hwritten (hname (by decide) _) hwrapping).1
      rfl).refused (by decide)
    cases hcause with
    | tooMuch _ hword => exact absurd hword (by decide)
    | fractional => exact ⟨_, herror⟩
    | malformed => exact ⟨_, herror⟩

end Settings

end PagedScan
