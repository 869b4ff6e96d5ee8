import PagedScan.Proofs.BatchReplay

/-!
# Appending to bytes that came from elsewhere

A batch may be any string of bytes, and an operation added to it goes to the end
of them, whatever they are. Reading begins at the front, and goes as far as the
count says. So what becomes of an added operation depends on whether the two
meet: whether the operations that were counted before end where the bytes ended.

If they do, what is added is what is read behind them. If they end earlier, the
bytes left over are read in place of what was added, and the batch is none the
worse for it as far as a writer can see. If the bytes do not even have room for
a count, the count is written over the beginning of the operation itself. The
two laws of `push` and of `addMany` below hold for all bytes alike, and say
which bytes come to be read; `append_replays` draws the line.
-/

namespace PagedScan

namespace Batch

/-- The bytes of the batch are these operations behind their count, and then
others. -/
structure Opens (b : Batch) (own : List Op) (behind : Bytes) : Prop where
  data : b.data = Word.encode own.length ++ (own.flatMap Op.encode ++ behind)
  few : own.length < Word.limit
  short : ∀ op ∈ own, op.tooLong? = none

theorem Holds.opens {b : Batch} {ops : List Op} (h : b.Holds ops) : b.Opens ops [] where
  data := by rw [List.append_nil]; exact h.data
  few := h.few
  short := h.short

variable {b b' : Batch} {added ops : List Op}

/-! ## What the bytes are afterwards -/

theorem of_add {op : Op} (h : (b.add op).Yields b' ()) :
    b.count + 1 < Word.limit ∧ op.tooLong? = none ∧ b' = b.push op := by
  rw [add] at h
  split at h
  · next hfew =>
      split at h
      · cases h.answer
      · next hshort => exact ⟨hfew, hshort, h.state.symm⟩
  · cases h.answer

theorem data_push (b : Batch) (op : Op) :
    (b.push op).data = Word.encode (b.count + 1) ++ (b.data ++ op.encode).drop Word.width :=
  rfl

theorem count_push {op : Op} (h : b.count + 1 < Word.limit) :
    (b.push op).count = b.count + 1 := by
  rw [count, data_push, Word.decode?_encode h]

/-- Operations that were all accepted have come to the end of the bytes, and a
count of them and of those before stands over the first four bytes, whether or
not these were a count already. -/
theorem of_addMany (h : (addMany added b).Yields b' ()) (hadded : added ≠ []) :
    b.count + added.length < Word.limit ∧ (∀ op ∈ added, op.tooLong? = none) ∧
      b'.data = Word.encode (b.count + added.length) ++
        (b.data ++ added.flatMap Op.encode).drop Word.width := by
  induction added generalizing b with
  | nil => exact absurd rfl hadded
  | cons op more ih =>
      obtain ⟨b₁, _, hop, hmore⟩ := h.of_andThen
      obtain ⟨hfew, hshort, rfl⟩ := of_add hop
      by_cases hnil : more = []
      · subst hnil
        have hlast : b' = b.push op := hmore.state.symm
        refine ⟨hfew, by simpa using hshort, ?_⟩
        rw [hlast, data_push, List.flatMap_singleton, List.length_singleton]
      · obtain ⟨hroom, hshorts, hdata⟩ := ih hmore hnil
        rw [count_push hfew] at hroom hdata
        have hlength : (op :: more).length = more.length + 1 := List.length_cons
        refine ⟨by omega, List.forall_mem_cons.mpr ⟨hshort, hshorts⟩, ?_⟩
        have hlong : Word.width ≤ (b.data ++ op.encode).length := by
          have := op.width_le_length_encode
          rw [List.length_append]
          omega
        rw [hdata, data_push, List.append_assoc, List.drop_left' (Word.length_encode _),
          List.flatMap_cons, ← List.append_assoc b.data, List.drop_append_of_le_length hlong,
          show b.count + 1 + more.length = b.count + (op :: more).length by omega]

/-- The operations read afterwards, as what the bytes behind the count begin
with. -/
theorem ops_addMany (h : (addMany added b).Yields b' ()) (hadded : added ≠ []) :
    b'.ops = .ok ops ↔ ops.length = b.count + added.length ∧
      (∀ op ∈ ops, op.tooLong? = none) ∧
      ops.flatMap Op.encode <+: (b.data ++ added.flatMap Op.encode).drop Word.width := by
  obtain ⟨hfew, -, hdata⟩ := of_addMany h hadded
  rw [Batch.ops, hdata, Word.decode?_encode hfew]
  exact Op.decodeMany_eq_ok_iff

/-! ## Where the counted operations end -/

theorem Opens.count {own : List Op} {behind : Bytes} (h : b.Opens own behind) :
    b.count = own.length := by
  rw [Batch.count, h.data, Word.decode?_encode h.few]

/-- Bytes with room for a count are opened by as many operations as they count,
if they begin with them behind the count. -/
theorem opens_of_drop {own : List Op} {behind : Bytes} (hroom : Word.width ≤ b.data.length)
    (hlength : own.length = b.count) (hshort : ∀ op ∈ own, op.tooLong? = none)
    (hdrop : b.data.drop Word.width = own.flatMap Op.encode ++ behind) :
    b.Opens own behind := by
  obtain ⟨n, rest, hword⟩ := Word.exists_decode? hroom
  have hcount : b.count = n := by rw [Batch.count, hword]
  obtain ⟨hlimit, hdata⟩ := Word.eq_encode_of_decode? hword
  rw [hdata, List.drop_left' (Word.length_encode n)] at hdrop
  rw [hcount] at hlength
  exact ⟨by rw [hdata, hdrop, hlength], hlength ▸ hlimit, hshort⟩

/-- Where the counted operations end before the bytes do, what is added is read
back if what lies between reads just as well. -/
theorem Opens.ops_addMany {own : List Op} {behind : Bytes} (hopens : b.Opens own behind)
    (h : (Batch.addMany added b).Yields b' ()) (hadded : added ≠ [])
    (hbehind : added.flatMap Op.encode <+: behind ++ added.flatMap Op.encode) :
    b'.ops = .ok (own ++ added) := by
  obtain ⟨-, hshort, -⟩ := of_addMany h hadded
  rw [Batch.ops_addMany h hadded, hopens.count, hopens.data, List.append_assoc,
    List.drop_left' (Word.length_encode _), List.flatMap_append, List.append_assoc,
    List.prefix_append_right_inj]
  exact ⟨List.length_append, List.forall_mem_append.mpr ⟨hopens.short, hshort⟩, hbehind⟩

/-- Operations that end with those added leave no way out: the bytes had a count
and what it counts, and the added ones are read behind that. -/
theorem opens_of_suffix (h : (addMany added b).Yields b' ()) (hadded : added ≠ [])
    (hops : b'.ops = .ok ops) (hsuffix : added <:+ ops) :
    ∃ own behind, b.Opens own behind ∧
      added.flatMap Op.encode <+: behind ++ added.flatMap Op.encode := by
  obtain ⟨own, rfl⟩ := hsuffix
  obtain ⟨hlength, hshort, hprefix⟩ := (ops_addMany h hadded).mp hops
  have hown : own.length = b.count := by
    rw [List.length_append] at hlength
    omega
  rw [List.flatMap_append] at hprefix
  -- Fewer bytes than were added cannot hold the added operations again.
  have hroom : Word.width ≤ b.data.length := by
    have hle := hprefix.length_le
    obtain ⟨op, more, rfl⟩ := List.exists_cons_of_ne_nil hadded
    have hop := op.width_le_length_encode
    simp only [List.flatMap_cons, List.length_append, List.length_drop] at hle
    omega
  rw [List.drop_append_of_le_length hroom] at hprefix
  have hfront : own.flatMap Op.encode <+: b.data.drop Word.width := by
    have hle := hprefix.length_le
    simp only [List.length_append] at hle
    exact List.prefix_of_prefix_length_le ((List.prefix_append _ _).trans hprefix)
      (List.prefix_append _ _) (by omega)
  obtain ⟨behind, hbehind⟩ := hfront
  rw [← hbehind, List.append_assoc, List.prefix_append_right_inj] at hprefix
  exact ⟨own, behind, opens_of_drop hroom hown (List.forall_mem_append.mp hshort).1
    hbehind.symm, hprefix⟩

end Batch

theorem Store.of_write {b : Batch} {s s' : Store} (h : (s.write b).Yields s' ()) :
    ∃ ops, b.ops = .ok ops ∧ s' = s.writeEach (ops.map Op.alone) := by
  cases hops : b.ops with
  | error e =>
      rw [Store.write, hops] at h
      cases h.answer
  | ok ops => exact ⟨ops, rfl, h.state.symm.trans (s.write_of_ops hops).state⟩

/-! ## When what was added is replayed -/

/-- Operations added to any bytes, and all accepted. If the bytes are operations
behind their count, writing the batch to a store comes to the same as making
these and then the added ones directly. For all other bytes, a write that succeeds
comes to some list of operations, and that list ends with the added ones exactly
if the bytes begin with a count and the operations it counts, and what was added
reads the same with the bytes left over in front of it. -/
theorem Batch.append_replays {b b' : Batch} {added : List Op} (hadded : added ≠ [])
    (h : (addMany added b).Yields b' ()) :
    (∀ own, b.Holds own → ∀ s : Store,
      (s.write b').Yields (s.writeEach ((own ++ added).map Op.alone)) ()) ∧
    ∀ s s' : Store, (s.write b').Yields s' () →
      ∃ ops, b'.ops = .ok ops ∧ s' = s.writeEach (ops.map Op.alone) ∧
        (added <:+ ops ↔ ∃ own behind, b.Opens own behind ∧
          added.flatMap Op.encode <+: behind ++ added.flatMap Op.encode) := by
  constructor
  · intro own hholds s
    have hops := hholds.opens.ops_addMany h hadded (List.prefix_append_right_inj [] |>.mpr
      List.prefix_rfl)
    exact s.write_of_ops hops
  · intro s s' hwrite
    obtain ⟨ops, hops, hs⟩ := Store.of_write hwrite
    refine ⟨ops, hops, hs, opens_of_suffix h hadded hops, ?_⟩
    rintro ⟨own, behind, hopens, hbehind⟩
    have hsame := hopens.ops_addMany h hadded hbehind
    rw [hops] at hsame
    cases hsame
    exact List.suffix_append own added

/-- An erasure of `a` behind its count, to which a put and another erasure are
added. -/
theorem Batch.append_replays_behind_erasure :
    (∀ s : Store, (s.write (addMany [.put [98] [1], .erase [99]]
        ⟨[1, 0, 0, 0, 2, 1, 0, 0, 0, 97]⟩).state).Yields
      (((s.erase [97]).put ⟨[98], [1]⟩).erase [99]) ()) ∧
    ∀ s s' : Store, (s.write (addMany [.put [98] [1], .erase [99]]
        ⟨[1, 0, 0, 0, 2, 1, 0, 0, 0, 97]⟩).state).Yields s' () →
      ∃ ops, s' = s.writeEach (ops.map Op.alone) ∧ [.put [98] [1], .erase [99]] <:+ ops := by
  have hholds : Holds ⟨[1, 0, 0, 0, 2, 1, 0, 0, 0, 97]⟩ [.erase [97]] :=
    ⟨by decide, by decide, by decide⟩
  constructor
  · exact (append_replays (List.cons_ne_nil _ _) ⟨rfl, rfl⟩).1 _ hholds
  · intro s s' hwrite
    obtain ⟨ops, -, hs, hsuffix⟩ :=
      (append_replays (List.cons_ne_nil _ _) ⟨rfl, rfl⟩).2 s s' hwrite
    exact ⟨ops, hs, hsuffix.mpr ⟨_, _, hholds.opens, List.prefix_rfl⟩⟩

/-- Not every accepted append is replayed. Bytes too few for a count take it over
the beginning of the erasure that was added, and another key is erased; and
bytes left over behind a count of none are read in place of the put. -/
theorem Batch.append_replaced :
    (∃ b', (addMany [.erase [0, 0]] ⟨[0, 0, 0]⟩).Yields b' () ∧
      b'.ops = .ok [.erase []] ∧ ¬ [.erase [0, 0]] <:+ [Op.erase []]) ∧
    (∃ b', (addMany [.put [107] [118]] ⟨[0, 0, 0, 0, 2, 0, 0, 0, 0]⟩).Yields b' () ∧
      b'.ops = .ok [.erase []] ∧ ¬ [.put [107] [118]] <:+ [Op.erase []]) :=
  ⟨⟨_, ⟨rfl, rfl⟩, rfl, by decide⟩, ⟨_, ⟨rfl, rfl⟩, rfl, by decide⟩⟩

end PagedScan
