import PagedScan.Proofs.RawAppend

/-!
# Which bytes are a batch

Any string of bytes may be handed over as a batch, and a store takes it if it
begins with a count and so many operations. What is behind them does not matter,
and what they are is not in doubt, although nothing marks where one ends: two
lists of as many operations that the same bytes begin with are both what the
reader answers, so they are one list.

From there it is a short way to bytes that were cut off. If a part of a written
batch still began with all it counts, then so would the whole, with the bytes
that were cut off behind it, and it would be the same operations; but behind
those the whole has nothing.

The reader hands on what is behind a part. One that works on the bytes in place
computes how far a part reaches and goes on from there, and has to mind that the
place lies inside the bytes. `Batch.cutOps` reads that way, with no answer where
a cut would go astray, and `cutOps_eq` says that none does, whatever lengths and
counts the bytes may claim.
-/

namespace PagedScan

/-! ## Reading in place -/

namespace Bytes

/-- The bytes from one place to another, if both lie in the bytes and in this
order. -/
def slice? (bytes : Bytes) (start stop : Nat) : Option Bytes :=
  if start ≤ stop ∧ stop ≤ bytes.length then some ((bytes.take stop).drop start) else none

/-- The bytes from a place on, if it lies in the bytes. -/
def sliceFrom? (bytes : Bytes) (start : Nat) : Option Bytes :=
  bytes.slice? start bytes.length

theorem sliceFrom?_of_le {bytes : Bytes} {start : Nat} (h : start ≤ bytes.length) :
    bytes.sliceFrom? start = some (bytes.drop start) := by
  rw [sliceFrom?, slice?, if_pos ⟨h, Nat.le_refl _⟩, List.take_length]

end Bytes

namespace Op

/-- The bytes behind the length at the front, and how many bytes the two take. -/
def measure (bytes : Bytes) : Except Corruption (Bytes × Nat) :=
  match Word.decode? bytes with
  | none => .error .noWord
  | some (length, _) =>
      match bytes.slice? Word.width (Word.width + length) with
      | some part => .ok (part, Word.width + length)
      | none => .error (.noBytes length)

/-- The operation at the front of the bytes, and what is behind it, found by
places; nothing if one of these lies outside of the bytes. -/
def cut (bytes : Bytes) : Option (Except Corruption (Op × Bytes)) :=
  match bytes with
  | [] => some (.error .noOperation)
  | code :: _ =>
      if code = putCode then
        (bytes.sliceFrom? 1).bind fun front =>
          match measure front with
          | .error e => some (.error e)
          | .ok (key, taken) =>
              (bytes.sliceFrom? (1 + taken)).bind fun rest =>
                match measure rest with
                | .error e => some (.error e)
                | .ok (value, taken') =>
                    (rest.sliceFrom? taken').map fun behind => .ok (.put key value, behind)
      else if code = eraseCode then
        (bytes.sliceFrom? 1).bind fun front =>
          match measure front with
          | .error e => some (.error e)
          | .ok (key, taken) =>
              (bytes.sliceFrom? (1 + taken)).map fun behind => .ok (.erase key, behind)
      else some (.error (.unknownOperation code))

/-- So many operations from the front of the bytes, found by places. -/
def cutMany : Nat → Bytes → Option (Except Corruption (List Op))
  | 0, _ => some (.ok [])
  | n + 1, bytes =>
      (cut bytes).bind fun
        | .error e => some (.error e)
        | .ok (op, rest) => (cutMany n rest).map fun found => found.map (op :: ·)

/-- A part is measured as it is decoded, and never reaches further than the bytes. -/
theorem measure_spec (bytes : Bytes) :
    (∃ e, measure bytes = .error e ∧ decodeBytes bytes = .error e) ∨
      ∃ part taken, measure bytes = .ok (part, taken) ∧ taken ≤ bytes.length ∧
        decodeBytes bytes = .ok (part, bytes.drop taken) := by
  rw [measure, decodeBytes]
  cases hword : Word.decode? bytes with
  | none => exact .inl ⟨_, rfl, rfl⟩
  | some found =>
      obtain ⟨length, rest⟩ := found
      obtain ⟨-, rfl⟩ := Word.eq_encode_of_decode? hword
      have hwidth := Word.length_encode length
      dsimp only
      rw [Bytes.slice?, List.length_append, hwidth]
      by_cases hle : length ≤ rest.length
      · rw [if_pos hle, if_pos ⟨Nat.le_add_right _ _, Nat.add_le_add_left hle _⟩]
        refine .inr ⟨_, _, rfl, Nat.add_le_add_left hle _, ?_⟩
        rw [List.drop_take, List.drop_left' hwidth, Nat.add_sub_cancel_left,
          ← List.drop_drop, List.drop_left' hwidth]
      · rw [if_neg hle, if_neg fun h => hle (Nat.le_of_add_le_add_left h.2)]
        exact .inl ⟨_, rfl, rfl⟩

/-- Cutting an operation off never goes astray, and is decoding. -/
theorem cut_eq (bytes : Bytes) : cut bytes = some (decode bytes) := by
  match bytes with
  | [] => rfl
  | code :: rest =>
      have hfront : Bytes.sliceFrom? (code :: rest) 1 = some rest :=
        Bytes.sliceFrom?_of_le (Nat.succ_pos _)
      have hfrom : ∀ {taken}, taken ≤ rest.length →
          Bytes.sliceFrom? (code :: rest) (1 + taken) = some (rest.drop taken) := by
        intro taken h
        rw [Nat.add_comm, Bytes.sliceFrom?_of_le (Nat.succ_le_succ h), List.drop_succ_cons]
      rw [cut, decode]
      split
      · rw [hfront, Option.bind_some]
        rcases measure_spec rest with ⟨e, hkey, hdecode⟩ | ⟨key, taken, hkey, hle, hdecode⟩
        · rw [hkey, hdecode]
        · rw [hkey, hdecode]
          dsimp only
          rw [hfrom hle, Option.bind_some]
          rcases measure_spec (rest.drop taken) with
            ⟨e, hvalue, hdecode'⟩ | ⟨value, taken', hvalue, hle', hdecode'⟩
          · rw [hvalue, hdecode']
            rfl
          · rw [hvalue, hdecode']
            dsimp only
            rw [Bytes.sliceFrom?_of_le hle']
            rfl
      · split
        · rw [hfront, Option.bind_some]
          rcases measure_spec rest with ⟨e, hkey, hdecode⟩ | ⟨key, taken, hkey, hle, hdecode⟩
          · rw [hkey, hdecode]
            rfl
          · rw [hkey, hdecode]
            dsimp only
            rw [hfrom hle]
            rfl
        · rfl

theorem cutMany_eq (n : Nat) (bytes : Bytes) : cutMany n bytes = some (decodeMany n bytes) := by
  induction n generalizing bytes with
  | zero => rfl
  | succ n ih =>
      rw [cutMany, decodeMany, cut_eq, Option.bind_some]
      cases decode bytes with
      | error e => rfl
      | ok found => exact congrArg (Option.map _) (ih found.2)

end Op

namespace Batch

/-- The operations of the batch, found by places; nothing if one of these lies
outside of the bytes. -/
def cutOps (b : Batch) : Option (Except Corruption (List Op)) :=
  match Word.decode? b.data with
  | none => some (.error .noWord)
  | some (n, _) => (b.data.sliceFrom? Word.width).bind (Op.cutMany n)

/-- Reading in place never goes astray, and answers what the reader answers. -/
theorem cutOps_eq (b : Batch) : b.cutOps = some b.ops := by
  rw [cutOps, ops]
  cases hword : Word.decode? b.data with
  | none => rfl
  | some found =>
      obtain ⟨n, rest⟩ := found
      obtain ⟨-, hdata⟩ := Word.eq_encode_of_decode? hword
      have hle : Word.width ≤ b.data.length := by
        rw [hdata, List.length_append, Word.length_encode]
        exact Nat.le_add_right _ _
      dsimp only
      rw [Bytes.sliceFrom?_of_le hle, Option.bind_some, Op.cutMany_eq, hdata,
        List.drop_left' (Word.length_encode n)]

/-! ## The one list of operations that bytes begin with -/

variable {b : Batch} {ops ops' : List Op} {behind behind' : Bytes}

theorem ops_eq_ok_iff : b.ops = .ok ops ↔ ∃ behind, b.Opens ops behind := by
  constructor
  · intro h
    rw [Batch.ops] at h
    split at h
    · cases h
    · next n rest hword =>
        obtain ⟨hlimit, hdata⟩ := Word.eq_encode_of_decode? hword
        obtain ⟨rfl, hshort, behind, rfl⟩ := Op.decodeMany_eq_ok_iff.mp h
        exact ⟨behind, hdata, hlimit, hshort⟩
  · rintro ⟨behind, h⟩
    rw [Batch.ops, h.data, Word.decode?_encode h.few]
    exact Op.decodeMany_flatMap h.short behind

theorem Opens.unique (h : b.Opens ops behind) (h' : b.Opens ops' behind') :
    ops = ops' ∧ behind = behind' := by
  have hops : b.ops = .ok ops := ops_eq_ok_iff.mpr ⟨behind, h⟩
  rw [ops_eq_ok_iff.mpr ⟨behind', h'⟩] at hops
  cases hops
  have hdata := h.data
  rw [h'.data, List.append_cancel_left_eq, List.append_cancel_left_eq] at hdata
  exact ⟨rfl, hdata.symm⟩

/-- Bytes that go on opened bytes are opened by the same operations. -/
theorem Opens.extend {whole : Batch} {more : Bytes} (h : b.Opens ops behind)
    (hwhole : whole.data = b.data ++ more) : whole.Opens ops (behind ++ more) where
  data := by rw [hwhole, h.data, List.append_assoc, List.append_assoc]
  few := h.few
  short := h.short

/-- A written batch that lost bytes at its end does not begin with what it
counts. -/
theorem Holds.not_opens_of_lost {whole : Batch} {own : List Op} (h : whole.Holds own)
    (hpart : b.data <+: whole.data) (hne : b.data ≠ whole.data) : ¬ b.Opens ops behind := by
  intro hopens
  obtain ⟨lost, hlost⟩ := hpart
  have hnothing : behind ++ lost = [] := (hopens.extend hlost.symm).unique h.opens |>.2
  rw [(List.append_eq_nil_iff.mp hnothing).2, List.append_nil] at hlost
  exact hne hlost

theorem holds_of_addMany {added : List Op} {whole : Batch}
    (h : (addMany added .empty).Yields whole ()) : whole.Holds added := by
  by_cases hnil : added = []
  · subst hnil
    rw [show whole = .empty from h.state.symm]
    exact .empty
  · obtain ⟨hfew, hshort, -⟩ := of_addMany h hnil
    rw [Holds.empty.count] at hfew
    obtain ⟨b', hyields, hholds⟩ := Holds.empty.addMany hfew hshort
    rw [← h.state, hyields.state]
    exact hholds

end Batch

/-! ## What a store takes -/

theorem Store.write_of_opens {b : Batch} {ops : List Op} {behind : Bytes}
    (h : b.Opens ops behind) (s : Store) :
    (s.write b).Yields (s.writeEach (ops.map Op.alone)) () :=
  s.write_of_ops (Batch.ops_eq_ok_iff.mpr ⟨behind, h⟩)

theorem Store.write_of_not_opens {b : Batch} (h : ¬ ∃ ops behind, b.Opens ops behind)
    (s : Store) : ∃ cause, s.write b = .fail s cause := by
  rw [Store.write]
  split
  · next cause _ => exact ⟨cause, rfl⟩
  · next ops hops => exact absurd ⟨ops, Batch.ops_eq_ok_iff.mp hops⟩ h

/-- Any bytes, written to any store as a batch. They are taken exactly if they
begin with a count and so many operations, and then these are the only such
operations, and the store is as if they had been made directly, in order. Any
other bytes are refused as corrupt, and the store is left as it was. A batch that
accepted operations from the start and then lost bytes at its end is of the second
kind. The bytes are never cut where they have no place, however they are read. -/
theorem Store.write_accepts (b : Batch) (s : Store) :
    ((∃ s', (s.write b).Yields s' ()) ↔ ∃ ops behind, b.Opens ops behind) ∧
    (∀ ops behind, b.Opens ops behind →
      (∀ ops' behind', b.Opens ops' behind' → ops' = ops) ∧
        (s.write b).Yields (s.writeEach (ops.map Op.alone)) ()) ∧
    ((¬ ∃ ops behind, b.Opens ops behind) → ∃ cause, s.write b = .fail s cause) ∧
    (∀ added whole, (Batch.addMany added .empty).Yields whole () →
      b.data <+: whole.data → b.data ≠ whole.data → ¬ ∃ ops behind, b.Opens ops behind) ∧
    b.cutOps = some b.ops := by
  refine ⟨⟨?_, ?_⟩, ?_, fun h => write_of_not_opens h s, ?_, b.cutOps_eq⟩
  · rintro ⟨s', hwrite⟩
    obtain ⟨ops, hops, -⟩ := Store.of_write hwrite
    exact ⟨ops, Batch.ops_eq_ok_iff.mp hops⟩
  · rintro ⟨ops, behind, h⟩
    exact ⟨_, write_of_opens h s⟩
  · intro ops behind h
    exact ⟨fun ops' behind' h' => (h'.unique h).1, write_of_opens h s⟩
  · rintro added whole hadded hpart hne ⟨ops, behind, h⟩
    exact (Batch.holds_of_addMany hadded).not_opens_of_lost hpart hne h

/-- An erasure of `a` behind its count with a byte left over, and the same
without the last byte of the key. -/
theorem Store.write_accepts_erasure :
    (∀ s : Store, (s.write ⟨[1, 0, 0, 0, 2, 1, 0, 0, 0, 97, 9]⟩).Yields
      (s.erase [97]) ()) ∧
    ∀ s : Store, ∃ cause, s.write ⟨[1, 0, 0, 0, 2, 1, 0, 0, 0]⟩ = .fail s cause := by
  have hopens : Batch.Opens ⟨[1, 0, 0, 0, 2, 1, 0, 0, 0, 97, 9]⟩ [.erase [97]] [9] :=
    ⟨by decide, by decide, by decide⟩
  constructor
  · intro s
    exact ((write_accepts _ s).2.1 _ _ hopens).2
  · intro s
    have hlost := (write_accepts ⟨[1, 0, 0, 0, 2, 1, 0, 0, 0]⟩ s).2.2.2.1
      [.erase [97]] ⟨[1, 0, 0, 0, 2, 1, 0, 0, 0, 97]⟩ ⟨rfl, rfl⟩ (by decide) (by decide)
    exact (write_accepts _ s).2.2.1 hlost

end PagedScan
