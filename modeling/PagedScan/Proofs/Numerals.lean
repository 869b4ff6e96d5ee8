import PagedScan.Json.Token

/-!
# Numerals read back

A numeral has three parts, and which one comes next is only seen where the one before it
ends. Digits are read for as long as there are any, so exactly those of a part are read
if no digit follows; and what may follow a part begins with a point or with the letter of
an exponent, which are none. `IsNumeral` is the grammar, part by part, with the number
that each numeral spells. `Ends` says of what is behind a numeral that it does not go on
with it.

The numeral of an integer is its digits, spelled. JSON asks that none is in front of the
others for nothing, and the digits of a number have no zero in front. Backwards, a
numeral that means an integer has nothing but digits behind its sign.
-/

namespace PagedScan

namespace Decimal

theorem digit?_spell {d : Nat} (h : d < 10) : digit? (spell d) = some d :=
  (by decide : ∀ d < 10, digit? (spell d) = some d) d h

theorem lt_of_mem_digits {n d : Nat} (h : d ∈ digits n) : d < 10 := by
  fun_induction digits n with
  | case1 n hlt =>
      rw [List.mem_singleton.mp h]
      exact hlt
  | case2 n _ ih =>
      rcases List.mem_append.mp h with h | h
      · exact ih h
      · rw [List.mem_singleton.mp h]
        exact Nat.mod_lt n (by decide)

theorem ofDigits_append_singleton (ds : List Nat) (d : Nat) :
    ofDigits (ds ++ [d]) = 10 * ofDigits ds + d := by
  rw [ofDigits, ofDigitsFrom, List.foldl_append]
  rfl

theorem ofDigits_digits (n : Nat) : ofDigits (digits n) = n := by
  fun_induction digits n with
  | case1 n _ => exact Nat.zero_add n
  | case2 n _ ih =>
      rw [ofDigits_append_singleton, ih]
      exact Nat.div_add_mod n 10

theorem digits_ne_nil (n : Nat) : digits n ≠ [] := by
  rw [digits]
  split
  · exact List.cons_ne_nil _ _
  · exact List.append_ne_nil_of_right_ne_nil _ (List.cons_ne_nil _ _)

/-- Digits begin with a zero only if they are no more than that. -/
theorem digits_ne_zero_cons (n d : Nat) (ds : List Nat) : digits n ≠ 0 :: d :: ds := by
  fun_induction digits n generalizing d ds with
  | case1 n _ =>
      intro h
      cases h
  | case2 n hge ih =>
      intro h
      have hnumber := ofDigits_digits (n / 10)
      cases hfront : digits (n / 10) with
      | nil => exact digits_ne_nil _ hfront
      | cons first more =>
          rw [hfront, List.cons_append] at h
          obtain ⟨rfl, hmore⟩ := List.cons.inj h
          cases more with
          | nil =>
              -- A lone zero is the digits of zero, and `n` is at least ten.
              rw [hfront] at hnumber
              have hzero : n / 10 = 0 := hnumber.symm
              omega
          | cons second more => exact ih second more hfront

theorem takeDigits_append {ds : List Nat} (hds : ∀ d ∈ ds, d < 10) {rest : Bytes}
    (hrest : ∀ b ∈ rest.head?, digit? b = none) :
    takeDigits (ds.map spell ++ rest) = (ds, rest) := by
  induction ds with
  | nil =>
      cases rest with
      | nil => rfl
      | cons b rest =>
          rw [List.map_nil, List.nil_append, takeDigits, hrest b rfl]
  | cons d ds ih =>
      obtain ⟨hd, hds⟩ := List.forall_mem_cons.mp hds
      rw [List.map_cons, List.cons_append, takeDigits, digit?_spell hd]
      dsimp only
      rw [ih hds]

end Decimal

namespace Json.Number

open Decimal

/-- Whether a numeral goes on with this byte. -/
def continues (b : UInt8) : Bool :=
  (digit? b).isSome || b = Ascii.point || b = Ascii.byte 'e' || b = Ascii.byte 'E'

/-- A numeral ends before these bytes. -/
def Ends (rest : Bytes) : Prop :=
  ∀ b ∈ rest.head?, continues b = false

theorem Ends.nil : Ends [] := by
  intro b hb
  cases hb

theorem Ends.cons {b : UInt8} (h : continues b = false) (rest : Bytes) : Ends (b :: rest) := by
  intro b' hb'
  cases hb'
  exact h

theorem Ends.digit? {rest : Bytes} (h : Ends rest) : ∀ b ∈ rest.head?, digit? b = none := by
  intro b hb
  have hb := h b hb
  simp only [continues, Bool.or_eq_false_iff, Option.isSome_eq_false_iff,
    Option.isNone_iff_eq_none] at hb
  exact hb.1.1.1

theorem Ends.ne_point {rest : Bytes} (h : Ends rest) : ∀ b ∈ rest.head?, b ≠ Ascii.point := by
  intro b hb
  have hb := h b hb
  simp only [continues, Bool.or_eq_false_iff, decide_eq_false_iff_not] at hb
  exact hb.1.1.2

/-! ## The parts of a numeral

Each part may be followed only by what a part behind it may begin with, and each is
read up to there. -/

/-- Digits, one or more. -/
structure IsDigits (ds : List Nat) : Prop where
  ne_nil : ds ≠ []
  lt_ten : ∀ d ∈ ds, d < 10

/-- The digits before a point. None is in front of the others for nothing. -/
structure IsWhole (ds : List Nat) : Prop extends IsDigits ds where
  lead : ∀ d rest, ds ≠ 0 :: d :: rest

/-- A point and the digits behind it, or neither. -/
inductive IsFraction : Bytes → Option (List Nat) → Prop
  | none : IsFraction [] none
  | digits {ds : List Nat} (h : IsDigits ds) :
      IsFraction (Ascii.point :: ds.map spell) (some ds)

/-- The letter that an exponent begins with. -/
def IsExponentMark (b : UInt8) : Prop :=
  b = Ascii.byte 'e' ∨ b = Ascii.byte 'E'

/-- An exponent with a sign or without, or none. -/
inductive IsExponent : Bytes → Option Int → Prop
  | none : IsExponent [] none
  | bare {mark : UInt8} {ds : List Nat} (hmark : IsExponentMark mark) (h : IsDigits ds) :
      IsExponent (mark :: ds.map spell) (some (ofDigits ds))
  | plus {mark : UInt8} {ds : List Nat} (hmark : IsExponentMark mark) (h : IsDigits ds) :
      IsExponent (mark :: Ascii.plus :: ds.map spell) (some (ofDigits ds))
  | minus {mark : UInt8} {ds : List Nat} (hmark : IsExponentMark mark) (h : IsDigits ds) :
      IsExponent (mark :: Ascii.minus :: ds.map spell) (some (-(ofDigits ds : Int)))

/-- A numeral, and the number it spells. -/
inductive IsNumeral : Bytes → Number → Prop
  | unsigned {whole : List Nat} {behind behind' : Bytes} {fraction : Option (List Nat)}
      {exponent : Option Int} (hwhole : IsWhole whole) (hfraction : IsFraction behind fraction)
      (hexponent : IsExponent behind' exponent) :
      IsNumeral (whole.map spell ++ (behind ++ behind')) ⟨false, whole, fraction, exponent⟩
  | negative {whole : List Nat} {behind behind' : Bytes} {fraction : Option (List Nat)}
      {exponent : Option Int} (hwhole : IsWhole whole) (hfraction : IsFraction behind fraction)
      (hexponent : IsExponent behind' exponent) :
      IsNumeral (Ascii.minus :: (whole.map spell ++ (behind ++ behind')))
        ⟨true, whole, fraction, exponent⟩

theorem IsDigits.exists_cons {ds : List Nat} (h : IsDigits ds) :
    ∃ d rest, d < 10 ∧ ds = d :: rest := by
  cases ds with
  | nil => exact absurd rfl h.ne_nil
  | cons d rest => exact ⟨d, rest, h.lt_ten d List.mem_cons_self, rfl⟩

theorem spell_ne {d : Nat} (h : d < 10) :
    spell d ≠ Ascii.minus ∧ spell d ≠ Ascii.plus ∧ spell d ≠ Ascii.point :=
  (by decide : ∀ d < 10, spell d ≠ Ascii.minus ∧ spell d ≠ Ascii.plus ∧
    spell d ≠ Ascii.point) d h

section Parts

variable {ds : List Nat} {text rest : Bytes}

theorem scanWhole_append (h : IsWhole ds) (hrest : ∀ b ∈ rest.head?, digit? b = none) :
    scanWhole (ds.map spell ++ rest) = some (ds, rest) := by
  rw [scanWhole, takeDigits_append h.lt_ten hrest]
  split
  · next heq => exact absurd (congrArg Prod.fst heq) h.ne_nil
  · next heq => exact absurd (congrArg Prod.fst heq) (h.lead _ _)
  · next heq => cases heq; rfl

theorem scanFraction_append {fraction : Option (List Nat)} (h : IsFraction text fraction)
    (hdigit : ∀ b ∈ rest.head?, digit? b = none) (hpoint : ∀ b ∈ rest.head?, b ≠ Ascii.point) :
    scanFraction (text ++ rest) = some (fraction, rest) := by
  cases h with
  | none =>
      cases rest with
      | nil => rfl
      | cons b rest => exact if_neg (hpoint b rfl)
  | @digits ds hds =>
      rw [List.cons_append, scanFraction, if_pos rfl, takeDigits_append hds.lt_ten hdigit]
      split
      · next heq => exact absurd (congrArg Prod.fst heq) hds.ne_nil
      · next heq => cases heq; rfl

theorem scanExponent_mark {mark : UInt8} {sign : Bool} {behind : Bytes}
    (hmark : IsExponentMark mark) (hds : IsDigits ds)
    (hsign : scanSign behind = (sign, ds.map spell ++ rest)) (hrest : Ends rest) :
    scanExponent (mark :: behind) =
      some (some (if sign then -(ofDigits ds : Int) else ofDigits ds), rest) := by
  have hletter : mark = Ascii.byte 'e' ∨ mark = Ascii.byte 'E' := hmark
  rw [scanExponent, if_pos hletter, hsign]
  dsimp only
  rw [takeDigits_append hds.lt_ten hrest.digit?]
  split
  · next heq => exact absurd (congrArg Prod.fst heq) hds.ne_nil
  · next heq => cases heq; rfl

theorem scanExponent_append {exponent : Option Int} (h : IsExponent text exponent)
    (hrest : Ends rest) : scanExponent (text ++ rest) = some (exponent, rest) := by
  cases h with
  | none =>
      cases rest with
      | nil => rfl
      | cons b rest =>
          have hb := hrest b rfl
          simp only [continues, Bool.or_eq_false_iff, decide_eq_false_iff_not] at hb
          exact if_neg fun he => he.elim hb.1.2 hb.2
  | @bare mark ds hmark hds =>
      have hsign : scanSign (ds.map spell ++ rest) = (false, ds.map spell ++ rest) := by
        obtain ⟨d, more, hd, rfl⟩ := hds.exists_cons
        rw [List.map_cons, List.cons_append, scanSign, if_neg (spell_ne hd).1,
          if_neg (spell_ne hd).2.1]
      exact scanExponent_mark hmark hds hsign hrest
  | @plus mark ds hmark hds =>
      have hsign : scanSign (Ascii.plus :: (ds.map spell ++ rest)) =
          (false, ds.map spell ++ rest) := rfl
      exact scanExponent_mark hmark hds hsign hrest
  | @minus mark ds hmark hds =>
      have hsign : scanSign (Ascii.minus :: (ds.map spell ++ rest)) =
          (true, ds.map spell ++ rest) := rfl
      exact scanExponent_mark hmark hds hsign hrest

/-- What comes behind the digits before a point goes on with no digit. -/
theorem head?_behind {behind behind' : Bytes} {fraction : Option (List Nat)}
    {exponent : Option Int} (hfraction : IsFraction behind fraction)
    (hexponent : IsExponent behind' exponent) (hrest : Ends rest) :
    (∀ b ∈ (behind' ++ rest).head?, digit? b = none ∧ b ≠ Ascii.point) ∧
      ∀ b ∈ (behind ++ (behind' ++ rest)).head?, digit? b = none := by
  have hmark : ∀ {b : UInt8}, IsExponentMark b → digit? b = none ∧ b ≠ Ascii.point := by
    rintro b (rfl | rfl)
    · decide
    · decide
  have hbehind : ∀ b ∈ (behind' ++ rest).head?, digit? b = none ∧ b ≠ Ascii.point := by
    cases hexponent with
    | none => exact fun b hb => ⟨hrest.digit? b hb, hrest.ne_point b hb⟩
    | bare hm | plus hm | minus hm =>
        rintro b ⟨⟩
        exact hmark hm
  refine ⟨hbehind, ?_⟩
  cases hfraction with
  | none => exact fun b hb => (hbehind b hb).1
  | digits => rintro b ⟨⟩; decide

end Parts

theorem scanUnsigned_append (negative : Bool) {whole : List Nat} {behind behind' rest : Bytes}
    {fraction : Option (List Nat)} {exponent : Option Int} (hwhole : IsWhole whole)
    (hfraction : IsFraction behind fraction) (hexponent : IsExponent behind' exponent)
    (hrest : Ends rest) :
    scanUnsigned negative (whole.map spell ++ (behind ++ behind') ++ rest) =
      some (⟨negative, whole, fraction, exponent⟩, rest) := by
  obtain ⟨hbehind, hwholeEnds⟩ := head?_behind hfraction hexponent hrest
  rw [List.append_assoc, List.append_assoc]
  simp only [scanUnsigned, scanWhole_append hwhole hwholeEnds,
    scanFraction_append hfraction (fun b hb => (hbehind b hb).1) (fun b hb => (hbehind b hb).2),
    scanExponent_append hexponent hrest, Option.bind_eq_bind, Option.bind_some, Option.pure_def]

/-- A numeral is read as the number it spells. -/
theorem scan_append {text rest : Bytes} {n : Number} (h : IsNumeral text n) (hrest : Ends rest) :
    scan (text ++ rest) = some (n, rest) := by
  cases h with
  | @unsigned whole _ _ _ _ hwhole hfraction hexponent =>
      have hscan := scanUnsigned_append false hwhole hfraction hexponent hrest
      obtain ⟨d, more, hd, rfl⟩ := hwhole.exists_cons
      rw [List.map_cons, List.cons_append, List.cons_append] at hscan ⊢
      rw [scan, if_neg (spell_ne hd).1]
      exact hscan
  | negative hwhole hfraction hexponent =>
      exact scanUnsigned_append true hwhole hfraction hexponent hrest

theorem IsNumeral.exists_cons {text : Bytes} {n : Number} (h : IsNumeral text n) :
    ∃ b rest, text = b :: rest ∧ (b = Ascii.minus ∨ ∃ d < 10, b = spell d) := by
  cases h with
  | @unsigned whole _ _ _ _ hwhole _ _ =>
      obtain ⟨d, more, hd, rfl⟩ := hwhole.exists_cons
      exact ⟨_, _, rfl, .inr ⟨d, hd, rfl⟩⟩
  | negative => exact ⟨_, _, rfl, .inl rfl⟩

/-! ## What numerals mean -/

theorem value_eq_integer_iff {n : Number} {z : Int} :
    n.value = .integer z ↔
      n.isPlain = true ∧ n.isMinusZero = false ∧ inWordRange z = true ∧ n.signed = z := by
  rw [value]
  constructor
  · intro h
    split at h
    · next hinteger =>
        cases h
        simp only [Bool.and_eq_true, Bool.not_eq_true'] at hinteger
        exact ⟨hinteger.1.1, hinteger.1.2, hinteger.2, rfl⟩
    · split at h <;> cases h
  · rintro ⟨hplain, hzero, hword, rfl⟩
    rw [hplain, hzero, hword]
    rfl

theorem value_digits {ds : List Nat} (h : ofDigits ds < UInt64.size) :
    value ⟨false, ds, none, none⟩ = .integer (ofDigits ds) := by
  refine value_eq_integer_iff.mpr ⟨rfl, rfl, ?_, rfl⟩
  simp only [inWordRange, Bool.and_eq_true, decide_eq_true_eq, Int64.toInt_minValue]
  omega

/-- A numeral that means an integer and no negative one is digits alone. -/
theorem IsNumeral.eq_digits {text : Bytes} {n : Number} {z : Int} (h : IsNumeral text n)
    (hvalue : n.value = .integer z) (hz : 0 ≤ z) :
    ∃ ds, IsWhole ds ∧ text = ds.map spell ∧ (ofDigits ds : Int) = z := by
  obtain ⟨hplain, hzero, -, hsigned⟩ := value_eq_integer_iff.mp hvalue
  cases h with
  | @unsigned whole _ _ _ _ hwhole hfraction hexponent =>
      cases hfraction with
      | digits => cases hplain
      | none =>
          cases hexponent with
          | none => exact ⟨whole, hwhole, by rw [List.append_nil, List.append_nil], hsigned⟩
          | bare | plus | minus => cases hplain
  | @negative whole _ _ _ _ hwhole hfraction hexponent =>
      have hminus : -(ofDigits whole : Int) = z := hsigned
      have hno : (true && decide (ofDigits whole = 0)) = false := hzero
      rw [Bool.true_and, decide_eq_false_iff_not] at hno
      omega

/-! ## The numerals of integers -/

/-- The number that the numeral of an integer spells. -/
def ofInt : Int → Number
  | .ofNat n => ⟨false, digits n, none, none⟩
  | .negSucc n => ⟨true, digits (n + 1), none, none⟩

theorem isWhole_digits (n : Nat) : IsWhole (digits n) :=
  ⟨⟨digits_ne_nil n, fun _ => lt_of_mem_digits⟩, digits_ne_zero_cons n⟩

theorem isNumeral_ofInt (z : Int) : IsNumeral (Decimal.ofInt z) (ofInt z) := by
  cases z with
  | ofNat n =>
      have h := IsNumeral.unsigned (isWhole_digits n) .none .none
      rw [List.append_nil, List.append_nil] at h
      exact h
  | negSucc n =>
      have h := IsNumeral.negative (isWhole_digits (n + 1)) .none .none
      rw [List.append_nil, List.append_nil] at h
      exact h

theorem value_ofInt {z : Int} (h : inWordRange z = true) : (ofInt z).value = .integer z := by
  have hsigned : (ofInt z).signed = z := by
    cases z with
    | ofNat n => exact congrArg Int.ofNat (ofDigits_digits n)
    | negSucc n =>
        show -(ofDigits (digits (n + 1)) : Int) = Int.negSucc n
        rw [ofDigits_digits]
        rfl
  have hzero : (ofInt z).isMinusZero = false := by
    cases z with
    | ofNat n => rfl
    | negSucc n =>
        show (true && decide (ofDigits (digits (n + 1)) = 0)) = false
        rw [ofDigits_digits]
        rfl
  have hplain : (ofInt z).isPlain = true := by
    cases z <;> rfl
  exact value_eq_integer_iff.mpr ⟨hplain, hzero, h, hsigned⟩

end Json.Number

end PagedScan
