import PagedScan.Json.Reader

/-!
# Skipping a value

A value that nobody asked for is passed over, but it has to be well-formed.
Passing over it needs no more than the stack of brackets that are open and what
may come next, so each token is looked at once and values may be nested to any
depth.
-/

namespace PagedScan.Json

/-- A bracket that is open. -/
inductive Bracket where
  | list
  | object
  deriving DecidableEq, Repr

/-- What may come next: a value; a value or the end of a list; a name; a name
or the end of an object; the colon behind a name; or, behind a value, a comma
or the end of what it stands in. -/
inductive Awaiting where
  | value
  | firstValue
  | name
  | firstName
  | colon
  | separator
  deriving DecidableEq, Repr

namespace Token

/-- Whether the token is a value by itself. -/
def isScalar : Token → Bool
  | .null | .boolean _ | .number _ | .string _ => true
  | _ => false

/-- Whether the token is the name of a member. -/
def isName : Token → Bool
  | .string _ => true
  | _ => false

end Token

namespace Awaiting

/-- Whether a value may come next. -/
def admitsValue : Awaiting → Bool
  | .value | .firstValue => true
  | _ => false

/-- Whether a name may come next. -/
def admitsName : Awaiting → Bool
  | .name | .firstName => true
  | _ => false

/-- Whether the list that is open may end here. -/
def admitsListEnd : Awaiting → Bool
  | .firstValue | .separator => true
  | _ => false

/-- Whether the object that is open may end here. -/
def admitsObjectEnd : Awaiting → Bool
  | .firstName | .separator => true
  | _ => false

/-- What comes after a comma. -/
def afterComma : Bracket → Awaiting
  | .list => .value
  | .object => .name

end Awaiting

/-- One token on: the brackets that are open then and what may come next, or
nothing if the token does not fit. -/
def Awaiting.advance (awaiting : Awaiting) (brackets : List Bracket) (t : Token) :
    Option (List Bracket × Awaiting) :=
  match t, brackets with
  | .openList, _ =>
      if awaiting.admitsValue then some (.list :: brackets, .firstValue) else none
  | .openObject, _ =>
      if awaiting.admitsValue then some (.object :: brackets, .firstName) else none
  | .closeList, .list :: outer =>
      if awaiting.admitsListEnd then some (outer, .separator) else none
  | .closeObject, .object :: outer =>
      if awaiting.admitsObjectEnd then some (outer, .separator) else none
  | .comma, bracket :: _ =>
      if awaiting = .separator then some (brackets, .afterComma bracket) else none
  | .colon, _ => if awaiting = .colon then some (brackets, .value) else none
  | t, _ =>
      if t.isName && awaiting.admitsName then some (brackets, .colon)
      else if t.isScalar && awaiting.admitsValue then some (brackets, .separator)
      else none

/-- What is behind the value: it is complete once no bracket is open and a
separator would come next. -/
def skip (brackets : List Bracket) (awaiting : Awaiting) : List Token → Option (List Token)
  | [] => none
  | t :: rest =>
      match awaiting.advance brackets t with
      | none => none
      | some ([], .separator) => some rest
      | some (brackets', awaiting') => skip brackets' awaiting' rest

theorem length_skip_lt {brackets : List Bracket} {awaiting : Awaiting}
    {ts rest : List Token} (h : skip brackets awaiting ts = some rest) :
    rest.length < ts.length := by
  induction ts generalizing brackets awaiting with
  | nil => cases h
  | cons t ts ih =>
      rw [skip] at h
      split at h
      · cases h
      · cases h; exact Nat.lt_succ_self _
      · exact Nat.lt_succ_of_lt (ih h)

/-- Passes over a value of any kind. -/
def Reader.ignored : Reader Unit where
  run ts :=
    match skip [] .value ts with
    | some rest => .ok ((), rest)
    | none => .error .malformed
  takes := by
    intro ts a rest h
    split at h
    · next behind hskip => cases h; exact length_skip_lt hskip
    · cases h

end PagedScan.Json
