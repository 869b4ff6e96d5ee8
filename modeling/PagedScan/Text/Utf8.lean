import PagedScan.Bytes

/-!
# Reading bytes as text when they may not be text

Bytes that are not UTF-8 still have to be shown. The reader goes from left to
right and takes at each place as much of one character as is there: the lead
byte says which bytes may follow it, and they are taken for as long as they
fit. A character that is there in full is shown as itself, and whatever falls
short of one (a byte that leads nothing, or a lead byte with too little behind
it) is shown as one replacement character.
-/

namespace PagedScan.Text

/-- A range of bytes, both ends included. -/
structure ByteRange where
  low : UInt8
  high : UInt8

namespace ByteRange

/-- Whether the byte lies in the range. -/
def has (r : ByteRange) (b : UInt8) : Bool :=
  r.low ≤ b && b ≤ r.high

/-- The bytes that continue a character. -/
def tail : ByteRange := ⟨0x80, 0xBF⟩

end ByteRange

/-- What must follow a lead byte to complete a character. The second byte is
narrowed where the full range would allow a longer spelling of a shorter
character, a surrogate, or a code point above U+10FFFF. -/
def following (lead : UInt8) : Option (List ByteRange) :=
  if lead < 0x80 then some []
  else if lead < 0xC2 then none
  else if lead < 0xE0 then some [.tail]
  else if lead = 0xE0 then some [⟨0xA0, 0xBF⟩, .tail]
  else if lead = 0xED then some [⟨0x80, 0x9F⟩, .tail]
  else if lead < 0xF0 then some [.tail, .tail]
  else if lead = 0xF0 then some [⟨0x90, 0xBF⟩, .tail, .tail]
  else if lead < 0xF4 then some [.tail, .tail, .tail]
  else if lead = 0xF4 then some [⟨0x80, 0x8F⟩, .tail, .tail]
  else none

/-- How many of the bytes fit the ranges, one each, before one does not. -/
def fitting : List ByteRange → Bytes → Nat
  | r :: ranges, b :: bytes => if r.has b then fitting ranges bytes + 1 else 0
  | _, _ => 0

/-- Stands for bytes that are no character. -/
def replacement : String := "\uFFFD"

/-- What the lead byte is shown as, and how many of the bytes behind it go
with it. -/
def shown (lead : UInt8) (rest : Bytes) : String × Nat :=
  match following lead with
  | none => (replacement, 0)
  | some ranges =>
      let taken := fitting ranges rest
      if taken = ranges.length then
        ((Bytes.text? (lead :: rest.take taken)).getD replacement, taken)
      else
        (replacement, taken)

/-- The bytes as text, with replacement characters where they are none. -/
def ofBytes : Bytes → String
  | [] => ""
  | lead :: rest => (shown lead rest).1 ++ ofBytes (rest.drop (shown lead rest).2)
termination_by bytes => bytes.length
decreasing_by
  rw [List.length_drop, List.length_cons]
  exact Nat.lt_succ_of_le (Nat.sub_le _ _)

end PagedScan.Text
