import PagedScan.Batch

/-!
# Operations read back as they were written

Every part of an operation is written behind its length, so a reader knows where
the part ends without looking into it, and it makes no difference whether the
bytes of a key happen to look like the beginning of an operation. Reading what
was written, with anything behind it, gives back what was written and leaves
what is behind. The one condition is that a length fits its word, which is what
`tooLong?` checks before an operation is added.

The converse is the second half. There is one way to write an operation, so
bytes that an operation was read from are that operation as it is written, and
bytes that a count of operations was read from begin with these operations and
nothing else. What is behind them may be anything.
-/

namespace PagedScan.Op

theorem length_lt_of_overlong? {bytes : Bytes} (h : overlong? bytes = none) :
    bytes.length < Word.limit := by
  rw [overlong?] at h
  split at h
  · next hlt => exact hlt
  · cases h

theorem decodeBytes_encodeBytes {bytes : Bytes} (h : overlong? bytes = none)
    (rest : Bytes) : decodeBytes (encodeBytes bytes ++ rest) = .ok (bytes, rest) := by
  rw [encodeBytes, List.append_assoc, decodeBytes,
    Word.decode?_encode (length_lt_of_overlong? h)]
  dsimp only
  rw [if_pos (by rw [List.length_append]; exact Nat.le_add_right _ _), List.take_left,
    List.drop_left]

theorem decode_encode {op : Op} (h : op.tooLong? = none) (rest : Bytes) :
    decode (op.encode ++ rest) = .ok (op, rest) := by
  cases op with
  | put key value =>
      obtain ⟨hkey, hvalue⟩ := Option.or_eq_none_iff.mp h
      rw [encode, List.cons_append, decode]
      dsimp only
      rw [if_pos rfl, List.append_assoc, decodeBytes_encodeBytes hkey]
      dsimp only
      rw [decodeBytes_encodeBytes hvalue]
      rfl
  | erase key =>
      rw [encode, List.cons_append, decode]
      dsimp only
      rw [if_neg (by decide), if_pos rfl, decodeBytes_encodeBytes h]
      rfl

theorem decodeMany_flatMap {ops : List Op} (h : ∀ op ∈ ops, op.tooLong? = none)
    (rest : Bytes) : decodeMany ops.length (ops.flatMap encode ++ rest) = .ok ops := by
  induction ops with
  | nil => rfl
  | cons op ops ih =>
      obtain ⟨hop, hops⟩ := List.forall_mem_cons.mp h
      rw [List.length_cons, decodeMany, List.flatMap_cons, List.append_assoc,
        decode_encode hop]
      dsimp only
      rw [ih hops]
      rfl

theorem width_le_length_encode (op : Op) : Word.width ≤ op.encode.length := by
  have hbytes : ∀ bytes : Bytes, Word.width ≤ (encodeBytes bytes).length := by
    intro bytes
    rw [encodeBytes, List.length_append, Word.length_encode]
    omega
  cases op with
  | put key value =>
      have := hbytes key
      simp only [encode, List.length_cons, List.length_append]
      omega
  | erase key =>
      have := hbytes key
      simp only [encode, List.length_cons]
      omega

/-! ## What was read is what was written -/

theorem overlong?_of_lt {bytes : Bytes} (h : bytes.length < Word.limit) :
    overlong? bytes = none := if_pos h

theorem eq_encodeBytes_of_decodeBytes {bytes part rest : Bytes}
    (h : decodeBytes bytes = .ok (part, rest)) :
    overlong? part = none ∧ bytes = encodeBytes part ++ rest := by
  rw [decodeBytes] at h
  split at h
  · cases h
  · next length behind hword =>
      obtain ⟨hlimit, rfl⟩ := Word.eq_encode_of_decode? hword
      split at h
      · next hle =>
          cases h
          have hlength : (behind.take length).length = length := List.length_take_of_le hle
          refine ⟨overlong?_of_lt (by omega), ?_⟩
          rw [encodeBytes, hlength, List.append_assoc, List.take_append_drop]
      · cases h

theorem eq_encode_of_decode {bytes rest : Bytes} {op : Op}
    (h : decode bytes = .ok (op, rest)) : op.tooLong? = none ∧ bytes = op.encode ++ rest := by
  match bytes with
  | [] => cases h
  | code :: behind =>
      simp only [decode] at h
      split at h
      · next hput =>
          subst hput
          split at h
          · cases h
          · next key behind' hkey =>
              obtain ⟨hshort, rfl⟩ := eq_encodeBytes_of_decodeBytes hkey
              cases hvalue : decodeBytes behind' with
              | error e => rw [hvalue] at h; cases h
              | ok found =>
                  obtain ⟨value, rest'⟩ := found
                  rw [hvalue] at h
                  cases h
                  obtain ⟨hshort', rfl⟩ := eq_encodeBytes_of_decodeBytes hvalue
                  refine ⟨?_, ?_⟩
                  · rw [tooLong?, hshort, hshort']
                    rfl
                  · rw [encode, List.cons_append, List.append_assoc]
      · split at h
        · next herase =>
            subst herase
            cases hkey : decodeBytes behind with
            | error e => rw [hkey] at h; cases h
            | ok found =>
                obtain ⟨key, rest'⟩ := found
                rw [hkey] at h
                cases h
                obtain ⟨hshort, rfl⟩ := eq_encodeBytes_of_decodeBytes hkey
                exact ⟨hshort, rfl⟩
        · cases h

/-- Bytes decode to so many operations if they begin with what is written for
these, and in no other case. -/
theorem decodeMany_eq_ok_iff {n : Nat} {bytes : Bytes} {ops : List Op} :
    decodeMany n bytes = .ok ops ↔
      ops.length = n ∧ (∀ op ∈ ops, op.tooLong? = none) ∧ ops.flatMap encode <+: bytes := by
  constructor
  · intro h
    induction n generalizing bytes ops with
    | zero =>
        cases h
        exact ⟨rfl, by simp, List.nil_prefix⟩
    | succ n ih =>
        rw [decodeMany] at h
        cases hop : decode bytes with
        | error e => rw [hop] at h; cases h
        | ok found =>
            obtain ⟨op, behind⟩ := found
            obtain ⟨hshort, rfl⟩ := eq_encode_of_decode hop
            rw [hop] at h
            cases hmore : decodeMany n behind with
            | error e => simp only [hmore] at h; cases h
            | ok more =>
                simp only [hmore] at h
                cases h
                obtain ⟨hlength, hshorts, hprefix⟩ := ih hmore
                refine ⟨by rw [List.length_cons, hlength], ?_, ?_⟩
                · exact List.forall_mem_cons.mpr ⟨hshort, hshorts⟩
                · rw [List.flatMap_cons]
                  exact (List.prefix_append_right_inj _).mpr hprefix
  · rintro ⟨rfl, hshort, rest, rfl⟩
    exact decodeMany_flatMap hshort rest

end PagedScan.Op
