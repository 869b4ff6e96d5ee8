/-!
# Keys and values

Keys and values are strings of bytes. Keys are ordered byte by byte, and a
key that begins another comes before it, which is the order lists of bytes
carry already: nothing here defines an order, and everything in the library
that compares two keys uses this one.
-/

namespace PagedScan

/-- A string of bytes. -/
abbrev Bytes := List UInt8

namespace Bytes

/-- The bytes of a text in UTF-8. -/
def ofText (text : String) : Bytes :=
  text.toUTF8.data.toList

/-- The text that these bytes spell in UTF-8, if they spell one. -/
def text? (bytes : Bytes) : Option String :=
  String.fromUTF8? ⟨bytes.toArray⟩

/-- Whether `bytes` begins with `stem`. -/
def startsWith (bytes stem : Bytes) : Bool :=
  stem.isPrefixOf bytes

end Bytes

/-- A key with the value stored under it. -/
structure Entry where
  key : Bytes
  value : Bytes
  deriving DecidableEq, Repr, Inhabited

/-- How many bytes the entry holds. -/
def Entry.size (e : Entry) : Nat :=
  e.key.length + e.value.length

end PagedScan
