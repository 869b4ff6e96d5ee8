import PagedScan.Batch.Word
import PagedScan.Error

/-!
# Operations in a batch

An operation is written as a byte that says which it is, and then its key, and
its value if it has one, each behind a word with its length.
-/

namespace PagedScan

/-- An operation on a store. -/
inductive Op where
  | put (key value : Bytes)
  | erase (key : Bytes)
  deriving DecidableEq, Repr

namespace Op

/-- The byte that announces a put. -/
def putCode : UInt8 := 1

/-- The byte that announces an erasure. -/
def eraseCode : UInt8 := 2

/-- Bytes behind their length. -/
def encodeBytes (bytes : Bytes) : Bytes :=
  Word.encode bytes.length ++ bytes

/-- How an operation is written. -/
def encode : Op → Bytes
  | put key value => putCode :: (encodeBytes key ++ encodeBytes value)
  | erase key => eraseCode :: encodeBytes key

/-- The length of bytes that are too long for a word to say how long. -/
def overlong? (bytes : Bytes) : Option Nat :=
  if bytes.length < Word.limit then none else some bytes.length

/-- The length of the first part of an operation that is too long. -/
def tooLong? : Op → Option Nat
  | put key value => (overlong? key).or (overlong? value)
  | erase key => overlong? key

/-- The bytes behind the length at the front, and what is behind them. -/
def decodeBytes (bytes : Bytes) : Except Corruption (Bytes × Bytes) :=
  match Word.decode? bytes with
  | none => .error .noWord
  | some (length, rest) =>
      if length ≤ rest.length then .ok (rest.take length, rest.drop length)
      else .error (.noBytes length)

/-- The operation at the front of the bytes, and what is behind it. -/
def decode (bytes : Bytes) : Except Corruption (Op × Bytes) :=
  match bytes with
  | [] => .error .noOperation
  | code :: rest =>
      if code = putCode then
        match decodeBytes rest with
        | .error e => .error e
        | .ok (key, rest') =>
            (decodeBytes rest').map fun (value, behind) => (.put key value, behind)
      else if code = eraseCode then
        (decodeBytes rest).map fun (key, behind) => (.erase key, behind)
      else .error (.unknownOperation code)

/-- So many operations from the front of the bytes. What is behind them is not
looked at. -/
def decodeMany : Nat → Bytes → Except Corruption (List Op)
  | 0, _ => .ok []
  | n + 1, bytes =>
      match decode bytes with
      | .error e => .error e
      | .ok (op, rest) => (decodeMany n rest).map (op :: ·)

end Op

end PagedScan
