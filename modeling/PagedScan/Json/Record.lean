import PagedScan.Json.Skip

/-!
# Records

A record is a value with named fields that is written either as an object, with
its fields in any order, or as a list of its fields in the order of their
declaration, which may break off early. A field that is not given keeps the
value it has in the blank record.

As an object a record may not give a field twice. Whether it may have members
that are no fields is up to the record: an open one passes over them, a closed
one refuses them as soon as their name is read.
-/

namespace PagedScan.Json

/-- A field of a record: its name, and how its value is read and put in. -/
structure Field (α : Type) where
  name : String
  reader : Reader (α → α)

/-- How a record is written. -/
structure Record (α : Type) where
  title : String
  fields : List (Field α)
  closed : Bool
  blank : α

namespace Record

variable {α : Type}

/-- The field of that name. -/
def field? (r : Record α) (name : String) : Option (Field α) :=
  r.fields.find? fun f => f.name = name

/-- How the value of a member is read, given the names that came before. -/
def memberReader (r : Record α) (seen : List String) (name : String) :
    Except Problem (Reader (α → α)) :=
  match r.field? name with
  | some f => if name ∈ seen then .error (.duplicateField name) else .ok f.reader
  | none =>
      if r.closed then .error (.unknownField name (r.fields.map Field.name))
      else .ok (Reader.ignored.map fun _ => id)

/-- Reads a member: its name and what it changes. -/
def member (r : Record α) (seen : List String) (ts : List Token) :
    Read (String × (α → α)) :=
  match ts with
  | .string (some name) :: rest =>
      match r.memberReader seen name with
      | .error p => .error p
      | .ok reader =>
          match rest with
          | .colon :: rest' =>
              (reader.run rest').map fun (change, behind) => ((name, change), behind)
          | _ => .error .malformed
  | _ => .error .malformed

theorem member_takes {r : Record α} {seen : List String} {ts rest : List Token}
    {m : String × (α → α)} (h : r.member seen ts = .ok (m, rest)) :
    rest.length < ts.length := by
  unfold member at h
  split at h
  · split at h
    · cases h
    · next reader _ =>
        split at h
        · next ts' =>
            cases hrun : reader.run ts' with
            | error p => rw [hrun] at h; cases h
            | ok found =>
                rw [hrun] at h
                cases h
                have := reader.takes hrun
                simp only [List.length_cons]
                omega
        · cases h
  · cases h

/-- Reads members from a name on, up to the closing brace. -/
def members (r : Record α) (seen : List String) (a : α) (ts : List Token) : Read α :=
  match _h : r.member seen ts with
  | .error p => .error p
  | .ok ((_, change), .closeObject :: rest) => .ok (change a, rest)
  | .ok ((name, change), .comma :: rest) => members r (name :: seen) (change a) rest
  | .ok _ => .error .malformed
termination_by ts.length
decreasing_by exact Nat.lt_of_succ_lt (member_takes _h)

/-- Reads the members behind the opening brace, up to the closing one. -/
def object (r : Record α) (ts : List Token) : Read α :=
  match ts with
  | .closeObject :: rest => .ok (r.blank, rest)
  | _ => r.members [] r.blank ts

/-- Reads the elements behind one that was read, for the fields that are left. -/
def moreElements (a : α) : List (Field α) → List Token → Read α
  | _, .closeList :: rest => .ok (a, rest)
  | f :: fields, .comma :: ts =>
      match f.reader.run ts with
      | .error p => .error p
      | .ok (change, rest) => moreElements (change a) fields rest
  | _, _ => .error .malformed

/-- Reads the elements behind the opening bracket, up to the closing one. -/
def elements (r : Record α) (ts : List Token) : Read α :=
  match r.fields, ts with
  | _, .closeList :: rest => .ok (r.blank, rest)
  | f :: fields, _ =>
      match f.reader.run ts with
      | .error p => .error p
      | .ok (change, rest) => moreElements (change r.blank) fields rest
  | [], _ => .error .malformed

theorem members_takes {r : Record α} {seen : List String} {a a' : α}
    {ts rest : List Token} (h : r.members seen a ts = .ok (a', rest)) :
    rest.length < ts.length := by
  fun_induction members r seen a ts with
  | case1 => cases h
  | case2 _ _ _ _ _ _ hm => cases h; exact Nat.lt_of_succ_lt (member_takes hm)
  | case3 _ _ _ _ _ _ hm ih =>
      exact Nat.lt_trans (ih h) (Nat.lt_of_succ_lt (member_takes hm))
  | case4 => cases h

theorem object_takes {r : Record α} {a : α} {ts rest : List Token}
    (h : r.object ts = .ok (a, rest)) : rest.length < ts.length := by
  unfold object at h
  split at h
  · cases h; exact Nat.lt_succ_self _
  · exact members_takes h

theorem moreElements_takes {fields : List (Field α)} {a a' : α}
    {ts rest : List Token} (h : moreElements a fields ts = .ok (a', rest)) :
    rest.length < ts.length := by
  fun_induction moreElements a fields ts with
  | case1 => cases h; exact Nat.lt_succ_self _
  | case2 => cases h
  | case3 _ f _ _ _ _ hrun ih =>
      exact Nat.lt_succ_of_lt (Nat.lt_trans (ih h) (f.reader.takes hrun))
  | case4 => cases h

theorem elements_takes {r : Record α} {a : α} {ts rest : List Token}
    (h : r.elements ts = .ok (a, rest)) : rest.length < ts.length := by
  unfold elements at h
  split at h
  · cases h; exact Nat.lt_succ_self _
  · next f _ _ _ =>
      split at h
      · cases h
      · next hrun => exact Nat.lt_trans (moreElements_takes h) (f.reader.takes hrun)
  · cases h

/-- Reads the record. -/
def reader (r : Record α) : Reader α where
  run
    | .openObject :: rest => r.object rest
    | .openList :: rest => r.elements rest
    | t :: _ => .error (.unexpected r.title t)
    | [] => .error .malformed
  takes := by
    intro ts a rest h
    split at h
    · exact Nat.lt_succ_of_lt (object_takes h)
    · exact Nat.lt_succ_of_lt (elements_takes h)
    · cases h
    · cases h

end Record

end PagedScan.Json
