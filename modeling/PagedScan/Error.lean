import PagedScan.Json.Problem

/-!
# What can go wrong

There are two kinds of trouble. An error is an answer: a file that cannot be
read, settings that make no sense, a batch that is refused or cannot be
decoded, a cursor that failed on the way. Misuse is a fault of whoever asked,
such as reading a cursor that is on no entry, and nothing is answered.
-/

namespace PagedScan

/-- Why the bytes of a batch cannot be decoded. -/
inductive Corruption where
  | noWord
  | noBytes (wanted : Nat)
  | noOperation
  | unknownOperation (code : UInt8)
  deriving DecidableEq, Repr

namespace Corruption

/-- The cause in words. -/
def message : Corruption → String
  | noWord => "buf length not enough for u32"
  | noBytes wanted => "buf length not enough for " ++ toString wanted ++ " bytes"
  | noOperation => "buf length not enough for OpType"
  | unknownOperation code => "Unknown op type: " ++ toString code.toNat

end Corruption

/-- Why a batch does not take an operation. -/
inductive Refusal where
  | tooMany
  | tooLong (length : Nat)
  | unpaired (keys values : Nat)
  deriving DecidableEq, Repr

namespace Refusal

/-- The reason in words. -/
def message : Refusal → String
  | tooMany => "too many operations in write batch"
  | tooLong length =>
      toString length ++ " bytes is too long for a write batch entry"
  | unpaired keys values =>
      "put_many got " ++ toString keys ++ " keys but " ++ toString values ++ " values"

end Refusal

/-- Why settings cannot be used. -/
inductive BadSettings where
  | unreadable (problem : Json.Problem)
  | noRoom
  | tooMuchRoom (size max : Nat)
  deriving DecidableEq, Repr

namespace BadSettings

/-- The fault in words. -/
def message : BadSettings → String
  | unreadable problem => "cannot deserialize FetchConfig: " ++ problem.message
  | noRoom => "page_size must be positive"
  | tooMuchRoom size max =>
      "page_size " ++ toString size ++ " exceeds the maximum of " ++ toString max

end BadSettings

/-- An error that is answered. -/
inductive Error where
  | io (text : String)
  | corrupt (cause : Corruption)
  | settings (cause : BadSettings)
  | cursor (text : String)
  | refused (cause : Refusal)
  deriving DecidableEq, Repr

namespace Error

/-- The error in words, its kind first. -/
def message : Error → String
  | io text => "io error: " ++ text
  | corrupt cause => "data corrupt: " ++ cause.message
  | settings cause => "config error: " ++ cause.message
  | cursor text => "cursor error: " ++ text
  | refused cause => "internal error: " ++ cause.message

end Error

/-- What may not be asked: for the entry of a cursor that is on none, or for a
page that a result does not have. -/
inductive Misuse where
  | noEntry
  | noPage (count index : Nat)
  deriving DecidableEq, Repr

namespace Misuse

/-- The misuse in words. -/
def message : Misuse → String
  | noEntry => "access to key/value of an invalid cursor"
  | noPage count index =>
      "index out of bounds: the len is " ++ toString count ++
        " but the index is " ++ toString index

end Misuse

end PagedScan
