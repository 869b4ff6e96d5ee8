import PagedScan.Bytes

/-!
# The bytes that have a meaning in JSON
-/

namespace PagedScan.Json.Ascii

def quote : UInt8 := 0x22
def plus : UInt8 := 0x2B
def comma : UInt8 := 0x2C
def minus : UInt8 := 0x2D
def point : UInt8 := 0x2E
def slash : UInt8 := 0x2F
def colon : UInt8 := 0x3A
def openBracket : UInt8 := 0x5B
def backslash : UInt8 := 0x5C
def closeBracket : UInt8 := 0x5D
def openBrace : UInt8 := 0x7B
def closeBrace : UInt8 := 0x7D

/-- Below this byte lie the controls, which may not stand in a string. -/
def space : UInt8 := 0x20

/-- The byte of an ASCII character. -/
def byte (c : Char) : UInt8 :=
  .ofNat c.toNat

/-- Blanks may stand between any two tokens. -/
def isBlank (b : UInt8) : Bool :=
  b = space || b = byte '\t' || b = byte '\n' || b = byte '\r'

end PagedScan.Json.Ascii
