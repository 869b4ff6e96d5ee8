import PagedScan.Bytes

/-!
# Decimal numerals

A numeral is read as the list of its digits, most significant first, and
written as the bytes of its digits. `ofDigits` and `digits` say which number a
list of digits denotes and which list denotes a number; the numeral written
for a number is the shortest one.
-/

namespace PagedScan.Decimal

/-- The digit that a byte spells. -/
def digit? (b : UInt8) : Option Nat :=
  if 0x30 ≤ b ∧ b ≤ 0x39 then some (b.toNat - 0x30) else none

/-- The byte that spells a digit. -/
def spell (digit : Nat) : UInt8 :=
  .ofNat (0x30 + digit)

/-- The digits at the front of the bytes, and what is behind them. -/
def takeDigits : Bytes → List Nat × Bytes
  | [] => ([], [])
  | b :: rest =>
      match digit? b with
      | some d => (d :: (takeDigits rest).1, (takeDigits rest).2)
      | none => ([], b :: rest)

/-- Reading digits on top of a number that was read before them. -/
def ofDigitsFrom (n : Nat) (digits : List Nat) : Nat :=
  digits.foldl (fun n d => 10 * n + d) n

/-- The number that a list of digits denotes. -/
def ofDigits (digits : List Nat) : Nat :=
  ofDigitsFrom 0 digits

/-- The digits of a number. -/
def digits (n : Nat) : List Nat :=
  if n < 10 then [n] else digits (n / 10) ++ [n % 10]

/-- The numeral of a number. -/
def ofNat (n : Nat) : Bytes :=
  (digits n).map spell

/-- The numeral of an integer, with a sign if it is negative. -/
def ofInt : Int → Bytes
  | .ofNat n => ofNat n
  | .negSucc n => 0x2D :: ofNat (n + 1)

theorem length_takeDigits_le (bytes : Bytes) :
    (takeDigits bytes).2.length ≤ bytes.length := by
  induction bytes with
  | nil => exact Nat.le_refl _
  | cons b rest ih =>
      rw [takeDigits]
      split
      · exact Nat.le_succ_of_le ih
      · exact Nat.le_refl _

end PagedScan.Decimal
