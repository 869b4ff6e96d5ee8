import PagedScan.Decimal

/-!
# Decimal numbers too large for a double

A decimal number is held in double precision in two steps: its leading digits
are read as a whole number for as long as that fits 64 bits, and the result,
rounded to 53 bits, is scaled by a power of ten, itself rounded to 53 bits.
The product is too large when it does not round to a finite double. Only the
whole numbers matter for that question, since scaling down never overflows,
and so it is decided here exactly, without any floating point.
-/

namespace PagedScan.Decimal

/-- A number as the double-precision reader keeps it: `significand` times ten
to the power `exponent`. -/
structure Scaled where
  significand : Nat
  exponent : Int
  deriving DecidableEq, Repr

/-- The largest significand. -/
def maxSignificand : Nat := UInt64.size - 1

/-- Reads digits onto a significand until one does not fit, and counts those
that were not read. -/
def readSignificand (significand : Nat) : List Nat → Nat × Nat
  | [] => (significand, 0)
  | d :: ds =>
      if 10 * significand + d ≤ maxSignificand then
        readSignificand (10 * significand + d) ds
      else
        (significand, ds.length + 1)

/-- The number with these digits before and after the point and this exponent.
A whole digit that was not read still counts as a power of ten, and a digit of
the fraction that was not read counts for nothing. -/
def scaled (whole fraction : List Nat) (exponent : Int) : Scaled :=
  let (leading, unread) := readSignificand 0 whole
  let (significand, dropped) := readSignificand leading fraction
  { significand
    exponent := exponent + unread - (fraction.length - dropped : Nat) }

/-- The nearest number with at most 53 significant bits, the even one of two. -/
def roundTo53 (n : Nat) : Nat :=
  let shift := n.log2 - 52
  let unit := 1 <<< shift
  let low := n / unit * unit
  if 2 * (n % unit) < unit then low
  else if unit < 2 * (n % unit) then low + unit
  else if n / unit % 2 = 0 then low
  else low + unit

/-- The least number that rounds to no finite double: halfway between the
largest one and the power of two after it. -/
def overflowBound : Nat := (1 <<< 1024) - (1 <<< 970)

/-- The largest power of ten that is a finite double has this exponent. -/
def maxPowerOfTen : Int := 308

/-- Whether the number is too large for a double. -/
def Scaled.overflows (s : Scaled) : Bool :=
  s.significand != 0 && 0 ≤ s.exponent &&
    (maxPowerOfTen < s.exponent ||
      overflowBound ≤ roundTo53 s.significand * roundTo53 (Nat.pow 10 s.exponent.toNat))

end PagedScan.Decimal
