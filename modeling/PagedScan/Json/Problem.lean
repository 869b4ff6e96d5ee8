import PagedScan.Json.Token
import PagedScan.Text.Quoted

/-!
# What can be wrong with a JSON text

A text is either malformed, which is all that is said about it, or it is
well-formed as far as it was read and says something that was not expected.
Where a value of one type was expected and another was found, the message names
both, and shows the value when it is a scalar.
-/

namespace PagedScan.Json

/-- The type of a value that was found, with the value if it is shown. -/
inductive Found where
  | null
  | boolean (b : Bool)
  | integer (n : Int)
  | fractional
  | string (text : String)
  | sequence
  | map
  deriving DecidableEq, Repr

/-- Why a text could not be read. -/
inductive Problem where
  | malformed
  | wrongType (found : Found) (expected : String)
  | outOfRange (n : Int) (expected : String)
  | unknownField (name : String) (known : List String)
  | duplicateField (name : String)
  | unknownVariant (name : String) (known : List String)
  deriving DecidableEq, Repr

namespace Found

/-- How a message names what was found. -/
def describe : Found → String
  | null => "null"
  | boolean b => "boolean `" ++ toString b ++ "`"
  | integer n => "integer `" ++ toString n ++ "`"
  | fractional => "floating point"
  | string text => "string " ++ Text.quoted text
  | sequence => "sequence"
  | map => "map"

end Found

namespace Problem

/-- Names between ticks, as alternatives. -/
def alternatives (names : List String) : String :=
  " or ".intercalate (names.map fun name => "`" ++ name ++ "`")

/-- The problem in words. -/
def message : Problem → String
  | malformed => "<syntax>"
  | wrongType found expected =>
      "invalid type: " ++ found.describe ++ ", expected " ++ expected
  | outOfRange n expected =>
      "invalid value: " ++ (Found.integer n).describe ++ ", expected " ++ expected
  | unknownField name known =>
      "unknown field `" ++ name ++ "`, expected " ++ alternatives known
  | duplicateField name => "duplicate field `" ++ name ++ "`"
  | unknownVariant name known =>
      "unknown variant `" ++ name ++ "`, expected " ++ alternatives known

/-- The type of the value that a token begins, if it begins one that has a
meaning. -/
def found? : Token → Option Found
  | .null => some .null
  | .boolean b => some (.boolean b)
  | .number n =>
      match n.value with
      | .integer z => some (.integer z)
      | .fractional => some .fractional
      | .tooLarge => none
  | .string text => text.map .string
  | .openList => some .sequence
  | .openObject => some .map
  | .closeList | .closeObject | .comma | .colon | .broken => none

/-- The problem with a value that begins with this token where another type
was expected. -/
def unexpected (expected : String) (t : Token) : Problem :=
  match found? t with
  | some found => .wrongType found expected
  | none => .malformed

end Problem

end PagedScan.Json
