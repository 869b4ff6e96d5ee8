import PagedScan.Json.Problem

/-!
# Readers

A reader takes a value off the front of a list of tokens. It stops at the
first token that does not fit, so that of two problems the one that comes
first in the text is reported. Every reader that succeeds takes at least one
token, which is why the loops over elements and members end.
-/

namespace PagedScan.Json

/-- What a reader answers: the value and the tokens behind it, or a problem. -/
abbrev Read (α : Type) := Except Problem (α × List Token)

/-- A way to read a value of type `α`. -/
structure Reader (α : Type) where
  run : List Token → Read α
  takes : ∀ {ts a rest}, run ts = .ok (a, rest) → rest.length < ts.length

namespace Reader

variable {α β : Type}

/-- Reads a value of one token, where `accept` says what the token means. -/
def scalar (accept : Token → Except Problem α) : Reader α where
  run
    | [] => .error .malformed
    | t :: rest => (accept t).map (·, rest)
  takes := by
    intro ts a rest h
    match ts with
    | [] => cases h
    | t :: rest' =>
        cases ht : accept t with
        | error p => simp only [ht, Except.map] at h; cases h
        | ok a' => simp only [ht, Except.map] at h; cases h; exact Nat.lt_succ_self _

/-- Reads a value and turns it into another. -/
def map (f : α → β) (r : Reader α) : Reader β where
  run ts := (r.run ts).map fun (a, rest) => (f a, rest)
  takes := by
    intro ts b rest h
    cases hr : r.run ts with
    | error p => simp only [hr, Except.map] at h; cases h
    | ok found => simp only [hr, Except.map] at h; cases h; exact r.takes hr

/-- Reads a whole text, in which nothing may follow the value. -/
def readText (r : Reader α) (text : Bytes) : Except Problem α :=
  match r.run (tokens text) with
  | .ok (a, []) => .ok a
  | .ok (_, _ :: _) => .error .malformed
  | .error p => .error p

/-! ## Scalars -/

/-- Reads `true` or `false`. -/
def boolean : Reader Bool :=
  scalar fun
    | .boolean b => .ok b
    | t => .error (.unexpected "a boolean" t)

/-- Reads `null`. -/
def unit : Reader Unit :=
  scalar fun
    | .null => .ok ()
    | t => .error (.unexpected "unit" t)

/-- Reads an integer from `low` to `high`; `expected` names the type. -/
def integer (expected : String) (low high : Int) : Reader Int :=
  scalar fun
    | .number n =>
        match n.value with
        | .integer z =>
            if low ≤ z ∧ z ≤ high then .ok z else .error (.outOfRange z expected)
        | _ => .error (.unexpected expected (.number n))
    | t => .error (.unexpected expected t)

/-- Reads a byte. -/
def byte : Reader UInt8 :=
  (integer "u8" 0 255).map fun z => .ofNat z.toNat

/-- Reads a signed 64-bit integer. -/
def int64 : Reader Int64 :=
  (integer "i64" Int64.minValue.toInt Int64.maxValue.toInt).map Int64.ofInt

/-- Reads an unsigned 64-bit integer. -/
def uint64 : Reader UInt64 :=
  (integer "usize" 0 (UInt64.size - 1)).map fun z => .ofNat z.toNat

/-! ## Lists -/

/-- Reads the elements behind the first one, up to the closing bracket. -/
def moreElements (r : Reader α) (ts : List Token) : Read (List α) :=
  match ts with
  | .closeList :: rest => .ok ([], rest)
  | .comma :: rest =>
      match _h : r.run rest with
      | .error p => .error p
      | .ok (a, rest') => (moreElements r rest').map fun (as, behind) => (a :: as, behind)
  | _ => .error .malformed
termination_by ts.length
decreasing_by exact Nat.lt_succ_of_lt (r.takes _h)

/-- Reads the elements behind the opening bracket, up to the closing one. -/
def elements (r : Reader α) (ts : List Token) : Read (List α) :=
  match ts with
  | .closeList :: rest => .ok ([], rest)
  | _ =>
      match r.run ts with
      | .error p => .error p
      | .ok (a, rest) => (moreElements r rest).map fun (as, behind) => (a :: as, behind)

theorem moreElements_takes (r : Reader α) {ts rest : List Token} {as : List α}
    (h : moreElements r ts = .ok (as, rest)) : rest.length < ts.length := by
  fun_induction moreElements r ts generalizing as with
  | case1 => cases h; exact Nat.lt_succ_self _
  | case2 => cases h
  | case3 behind a rest' hr ih =>
      cases hmore : moreElements r rest' with
      | error p => rw [hmore] at h; cases h
      | ok found =>
          rw [hmore] at h
          cases h
          have := r.takes hr
          have := ih hmore
          rw [List.length_cons]
          omega
  | case4 => cases h

theorem elements_takes (r : Reader α) {ts rest : List Token} {as : List α}
    (h : elements r ts = .ok (as, rest)) : rest.length < ts.length := by
  unfold elements at h
  split at h
  · cases h; exact Nat.lt_succ_self _
  · split at h
    · cases h
    · next a rest' hr =>
        cases hmore : moreElements r rest' with
        | error p => rw [hmore] at h; cases h
        | ok found =>
            rw [hmore] at h
            cases h
            exact Nat.lt_trans (moreElements_takes r hmore) (r.takes hr)

/-- Reads a list; `expected` names what else would have been found. -/
def list (expected : String) (r : Reader α) : Reader (List α) where
  run
    | .openList :: rest => elements r rest
    | t :: _ => .error (.unexpected expected t)
    | [] => .error .malformed
  takes := by
    intro ts as rest h
    split at h
    · exact Nat.lt_succ_of_lt (elements_takes r h)
    · cases h
    · cases h

end Reader

end PagedScan.Json
