import PagedScan.Decimal.Binary64
import PagedScan.Json.Ascii

/-!
# Numbers

A JSON number is kept as it was spelled, digit by digit, because what it means
depends on how it was spelled. A plain integer that fits a 64-bit word, signed
or unsigned, is that integer. Everything else is a fractional number, whatever
its value: one with a point or an exponent, one too long for a word, and minus
zero. A number whose double would be infinite has no value at all.
-/

namespace PagedScan.Json

/-- A number as it was spelled. -/
structure Number where
  negative : Bool
  whole : List Nat
  fraction : Option (List Nat)
  exponent : Option Int
  deriving DecidableEq, Repr

namespace Number

open Decimal

/-- What a number means. -/
inductive Value where
  | integer (n : Int)
  | fractional
  | tooLarge
  deriving DecidableEq, Repr

/-- The range of integers that some 64-bit word holds. -/
def inWordRange (n : Int) : Bool :=
  Int64.minValue.toInt ≤ n && n < UInt64.size

/-- Whether the spelling is that of a plain integer. -/
def isPlain (n : Number) : Bool :=
  n.fraction.isNone && n.exponent.isNone

/-- The integer that the digits before the point denote. -/
def signed (n : Number) : Int :=
  if n.negative then -(ofDigits n.whole : Int) else ofDigits n.whole

/-- Minus zero is no integer. -/
def isMinusZero (n : Number) : Bool :=
  n.negative && ofDigits n.whole = 0

/-- What the number means. -/
def value (n : Number) : Value :=
  if n.isPlain && !n.isMinusZero && inWordRange n.signed then
    .integer n.signed
  else if (scaled n.whole (n.fraction.getD []) (n.exponent.getD 0)).overflows then
    .tooLarge
  else
    .fractional

/-! ## Reading a number

The parts are read one after the other, each off what the one before it left.
A part that must have digits and has none makes the whole fail. -/

/-- The digits before the point. A zero may only stand alone. -/
def scanWhole (bytes : Bytes) : Option (List Nat × Bytes) :=
  match takeDigits bytes with
  | ([], _) => none
  | (0 :: _ :: _, _) => none
  | (digits, rest) => some (digits, rest)

/-- The digits behind the point, if there is one. -/
def scanFraction (bytes : Bytes) : Option (Option (List Nat) × Bytes) :=
  match bytes with
  | [] => some (none, [])
  | b :: rest =>
      if b = Ascii.point then
        match takeDigits rest with
        | ([], _) => none
        | (digits, rest') => some (some digits, rest')
      else
        some (none, b :: rest)

/-- The sign of an exponent: whether it is a minus. -/
def scanSign (bytes : Bytes) : Bool × Bytes :=
  match bytes with
  | [] => (false, [])
  | b :: rest =>
      if b = Ascii.minus then (true, rest)
      else if b = Ascii.plus then (false, rest)
      else (false, b :: rest)

/-- The exponent, if there is one. -/
def scanExponent (bytes : Bytes) : Option (Option Int × Bytes) :=
  match bytes with
  | [] => some (none, [])
  | b :: rest =>
      if b = Ascii.byte 'e' ∨ b = Ascii.byte 'E' then
        match takeDigits (scanSign rest).2 with
        | ([], _) => none
        | (digits, rest') =>
            some (some (if (scanSign rest).1 then -(ofDigits digits : Int)
              else ofDigits digits), rest')
      else
        some (none, b :: rest)

/-- A number without its sign. -/
def scanUnsigned (negative : Bool) (bytes : Bytes) : Option (Number × Bytes) := do
  let (whole, rest) ← scanWhole bytes
  let (fraction, rest) ← scanFraction rest
  let (exponent, rest) ← scanExponent rest
  return (⟨negative, whole, fraction, exponent⟩, rest)

/-- The number at the front of the bytes, and what is behind it. -/
def scan (bytes : Bytes) : Option (Number × Bytes) :=
  match bytes with
  | [] => none
  | b :: rest =>
      if b = Ascii.minus then scanUnsigned true rest else scanUnsigned false (b :: rest)

/-! ## A number takes at least one byte -/

theorem length_takeDigits_lt {bytes rest : Bytes} {d : Nat} {ds : List Nat}
    (h : takeDigits bytes = (d :: ds, rest)) : rest.length < bytes.length := by
  match bytes with
  | [] => simp [takeDigits] at h
  | b :: bytes =>
      rw [takeDigits] at h
      split at h
      · have := length_takeDigits_le bytes
        have hrest : (takeDigits bytes).2 = rest := congrArg Prod.snd h
        rw [hrest] at this
        exact Nat.lt_succ_of_le this
      · simp at h

theorem length_scanWhole_lt {bytes rest : Bytes} {whole : List Nat}
    (h : scanWhole bytes = some (whole, rest)) : rest.length < bytes.length := by
  unfold scanWhole at h
  split at h
  · cases h
  · cases h
  · next digits rest' hnil _ htake =>
      cases h
      cases whole with
      | nil => exact (hnil rfl).elim
      | cons d ds => exact length_takeDigits_lt htake

theorem length_scanFraction_le {bytes rest : Bytes} {fraction : Option (List Nat)}
    (h : scanFraction bytes = some (fraction, rest)) :
    rest.length ≤ bytes.length := by
  unfold scanFraction at h
  split at h
  · cases h; exact Nat.le_refl _
  · split at h
    · split at h
      · cases h
      · next b behind _ _ digits rest' _ htake =>
          cases h
          have := length_takeDigits_le behind
          rw [htake] at this
          exact Nat.le_succ_of_le this
    · cases h; exact Nat.le_refl _

theorem length_scanSign_le (bytes : Bytes) :
    (scanSign bytes).2.length ≤ bytes.length := by
  unfold scanSign
  split
  · exact Nat.le_refl _
  · split
    · exact Nat.le_succ _
    · split
      · exact Nat.le_succ _
      · exact Nat.le_refl _

theorem length_scanExponent_le {bytes rest : Bytes} {exponent : Option Int}
    (h : scanExponent bytes = some (exponent, rest)) :
    rest.length ≤ bytes.length := by
  unfold scanExponent at h
  split at h
  · cases h; exact Nat.le_refl _
  · split at h
    · split at h
      · cases h
      · next b behind _ _ digits rest' _ htake =>
          cases h
          have hdigits := length_takeDigits_le (scanSign behind).2
          have hsign := length_scanSign_le behind
          rw [htake] at hdigits
          rw [List.length_cons]
          simp only at hdigits
          omega
    · cases h; exact Nat.le_refl _

theorem length_scanUnsigned_lt {negative : Bool} {bytes rest : Bytes} {n : Number}
    (h : scanUnsigned negative bytes = some (n, rest)) :
    rest.length < bytes.length := by
  simp only [scanUnsigned, Option.bind_eq_bind, Option.bind_eq_some_iff,
    Prod.exists] at h
  obtain ⟨whole, rest₁, hwhole, fraction, rest₂, hfraction, exponent, rest₃,
    hexponent, hn⟩ := h
  cases hn
  have h₁ := length_scanWhole_lt hwhole
  have h₂ := length_scanFraction_le hfraction
  have h₃ := length_scanExponent_le hexponent
  omega

theorem length_scan_lt {bytes rest : Bytes} {n : Number}
    (h : scan bytes = some (n, rest)) : rest.length < bytes.length := by
  unfold scan at h
  split at h
  · cases h
  · split at h
    · exact Nat.lt_succ_of_lt (length_scanUnsigned_lt h)
    · exact length_scanUnsigned_lt h

end Number

end PagedScan.Json
