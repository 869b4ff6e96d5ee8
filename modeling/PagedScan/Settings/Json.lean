import PagedScan.Json.Record
import PagedScan.Settings

/-!
# Settings as JSON

Settings are a closed record with the fields `page_size` and `error_policy`. A
policy is its name, or an object with that name as its only member and `null`
as the value. The name of a member is no value and has no type that could be the
wrong one, so whatever else stands in its place is malformed, as it is in front
of any other member.
-/

namespace PagedScan

namespace FailurePolicy

/-- How the policies are called. -/
def names : List (String × FailurePolicy) :=
  [("continue", proceed), ("abort", abort)]

/-- The policy of that name. -/
def ofName (name : String) : Except Json.Problem FailurePolicy :=
  match names.lookup name with
  | some policy => .ok policy
  | none => .error (.unknownVariant name (names.map Prod.fst))

open Json

/-- Reads what is behind the name in a policy that is written as an object. -/
def closing (policy : FailurePolicy) : List Token → Read FailurePolicy
  | .colon :: rest =>
      match Reader.unit.run rest with
      | .error p => .error p
      | .ok ((), .closeObject :: behind) => .ok (policy, behind)
      | .ok _ => .error .malformed
  | _ => .error .malformed

/-- Reads a policy. What stands for its name and is no string is malformed, even
where it would be a value by itself. -/
def read : List Token → Read FailurePolicy
  | .string (some name) :: rest => (ofName name).map (·, rest)
  | .openObject :: .string (some name) :: rest =>
      match ofName name with
      | .error p => .error p
      | .ok policy => closing policy rest
  | _ => .error .malformed

theorem closing_takes {policy policy' : FailurePolicy} {ts rest : List Token}
    (h : closing policy ts = .ok (policy', rest)) : rest.length < ts.length := by
  unfold closing at h
  split at h
  · split at h
    · cases h
    · next hunit =>
        cases h
        exact Nat.lt_succ_of_lt (Nat.lt_of_succ_lt (Reader.unit.takes hunit))
    · cases h
  · cases h

/-- The policies as JSON. -/
def reader : Reader FailurePolicy where
  run := read
  takes := by
    intro ts policy rest h
    unfold read at h
    split at h
    · next name _ =>
        cases hname : ofName name with
        | error p => rw [hname] at h; cases h
        | ok policy => rw [hname] at h; cases h; exact Nat.lt_succ_self _
    · split at h
      · cases h
      · exact Nat.lt_succ_of_lt (Nat.lt_succ_of_lt (closing_takes h))
    · cases h

end FailurePolicy

namespace Settings

open Json

/-- The settings as JSON. -/
def record : Record Settings where
  title := "struct FetchConfig"
  fields :=
    [ ⟨"page_size", Reader.uint64.map fun size s => s.withPageSize size⟩,
      ⟨"error_policy", FailurePolicy.reader.map fun policy s => s.withPolicy policy⟩ ]
  closed := true
  blank := standard

end Settings

end PagedScan
