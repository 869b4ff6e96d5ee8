import Mathlib.Algebra.GroupWithZero.Nat
import PagedScan.Proofs.RawAppend

/-!
# Many puts are accepted or refused together

To put many keys, a batch looks at all of them first and then adds one put after
the other. If one of these could still be refused, the ones before it would stay
behind. So the first look has to foresee every later one, and what it asks of the
count is not what a single put asks: that there is room for all, where each put
reads the count anew from the bytes that the put before it has left.

The count was believed and not checked, and the bytes may have no room for one.
None of that matters, because the first put writes a count in any case, and from
then on each reads the number that was written. That is why `yields_addMany_iff`
needs no invariant on the bytes it starts from.
-/

namespace PagedScan

namespace Batch

/-- The calls are accepted one after the other, and they lead from the first
batch to the second. -/
inductive Accepts : Batch → List Call → Batch → Prop where
  | nil {b : Batch} : Accepts b [] b
  | cons {b b₁ b₂ : Batch} {call : Call} {calls : List Call} :
      (call.run b).Yields b₁ () → Accepts b₁ calls b₂ → Accepts b (call :: calls) b₂

variable {b b' : Batch} {ops : List Op} {keys values : List Bytes}

/-! ## When operations are all accepted -/

theorem count_lt (b : Batch) : b.count < Word.limit := by
  rw [count]
  split
  · next hword => exact (Word.eq_encode_of_decode? hword).1
  · decide

theorem exists_yields_addMany (hroom : b.count + ops.length < Word.limit)
    (hshort : ∀ op ∈ ops, op.tooLong? = none) : ∃ b', (addMany ops b).Yields b' () := by
  induction ops generalizing b with
  | nil => exact ⟨b, .ok⟩
  | cons op ops ih =>
      obtain ⟨hop, hops⟩ := List.forall_mem_cons.mp hshort
      rw [List.length_cons] at hroom
      have hfew : b.count + 1 < Word.limit := by omega
      obtain ⟨b', hyields⟩ := ih (b := b.push op) (by rw [count_push hfew]; omega) hops
      exact ⟨b', (yields_add hfew hop).andThen hyields⟩

theorem yields_addMany_iff :
    (∃ b', (addMany ops b).Yields b' ()) ↔
      b.count + ops.length < Word.limit ∧ ∀ op ∈ ops, op.tooLong? = none := by
  refine ⟨?_, fun h => exists_yields_addMany h.1 h.2⟩
  rintro ⟨b', hyields⟩
  by_cases hnil : ops = []
  · subst hnil
    exact ⟨b.count_lt, by simp⟩
  · obtain ⟨hroom, hshort, -⟩ := of_addMany hyields hnil
    exact ⟨hroom, hshort⟩

/-! ## Puts -/

theorem tooLong?_put_eq_none_iff {key value : Bytes} :
    (Op.put key value).tooLong? = none ↔
      key.length < Word.limit ∧ value.length < Word.limit := by
  rw [Op.tooLong?, Option.or_eq_none_iff]
  exact and_congr ⟨Op.length_lt_of_overlong?, Op.overlong?_of_lt⟩
    ⟨Op.length_lt_of_overlong?, Op.overlong?_of_lt⟩

theorem accepts_puts_iff :
    Accepts b (List.zipWith .put keys values) b' ↔
      (addMany (List.zipWith .put keys values) b).Yields b' () := by
  constructor
  · intro h
    generalize hcalls : List.zipWith Call.put keys values = calls at h
    induction h generalizing keys values with
    | nil =>
        rcases List.zipWith_eq_nil_iff.mp hcalls with rfl | rfl
        · exact .ok
        · rw [List.zipWith_nil_right]
          exact .ok
    | cons hcall _ ih =>
        obtain ⟨key, keys, value, values, rfl, rfl, rfl, hrest⟩ :=
          List.zipWith_eq_cons_iff.mp hcalls
        exact hcall.andThen (ih hrest.symm)
  · intro h
    induction keys generalizing b values with
    | nil =>
        cases h.state
        exact .nil
    | cons key keys ih =>
        cases values with
        | nil =>
            cases h.state
            exact .nil
        | cons value values =>
            obtain ⟨b₁, _, hput, hmore⟩ := h.of_andThen
            exact .cons hput (ih hmore)

theorem length_puts (hpaired : keys.length = values.length) :
    (List.zipWith Op.put keys values).length = keys.length := by
  rw [List.length_zipWith, ← hpaired, Nat.min_self]

theorem short_puts (hkeys : ∀ key ∈ keys, key.length < Word.limit)
    (hvalues : ∀ value ∈ values, value.length < Word.limit) :
    ∀ op ∈ List.zipWith Op.put keys values, op.tooLong? = none := by
  intro op hop
  rw [← List.map_uncurry_zip_eq_zipWith, List.mem_map] at hop
  obtain ⟨⟨key, value⟩, hmem, rfl⟩ := hop
  obtain ⟨hkey, hvalue⟩ := List.of_mem_zip hmem
  exact tooLong?_put_eq_none_iff.mpr ⟨hkeys key hkey, hvalues value hvalue⟩

theorem putMany_of_short (hshort : ∀ op ∈ List.zipWith Op.put keys values, op.tooLong? = none) :
    b.putMany keys values =
      if keys.length = values.length then
        if b.count + keys.length < Word.limit then addMany (List.zipWith .put keys values) b
        else .fail b .tooMany
      else .fail b (.unpaired keys.length values.length) := by
  rw [putMany]
  dsimp only
  rw [List.findSome?_eq_none_iff.mpr hshort]

/-- Putting many keys is accepted if and only if each put would be, one after the
other, and leaves what they would leave. -/
theorem yields_putMany_iff :
    (b.putMany keys values).Yields b' () ↔
      keys.length = values.length ∧ Accepts b (List.zipWith .put keys values) b' := by
  rw [accepts_puts_iff]
  constructor
  · intro h
    rw [putMany] at h
    split at h
    · next hpaired =>
        dsimp only at h
        split at h
        · cases h.answer
        · split at h
          · exact ⟨hpaired, h⟩
          · cases h.answer
    · cases h.answer
  · rintro ⟨hpaired, h⟩
    obtain ⟨hroom, hshort⟩ := yields_addMany_iff.mp ⟨b', h⟩
    rw [length_puts hpaired] at hroom
    rw [putMany_of_short hshort, if_pos hpaired, if_pos hroom]
    exact h

theorem putMany_eq_fail (hshort : ∀ op ∈ List.zipWith Op.put keys values, op.tooLong? = none)
    {reason : Refusal} (h : (b.putMany keys values).answer = .error reason) :
    b.putMany keys values = .fail b reason ∧
      reason = if keys.length = values.length then .tooMany
        else .unpaired keys.length values.length := by
  rw [putMany_of_short hshort] at h ⊢
  by_cases hpaired : keys.length = values.length
  · rw [if_pos hpaired] at h ⊢
    rw [if_pos hpaired]
    by_cases hroom : b.count + keys.length < Word.limit
    · obtain ⟨b', hyields⟩ := exists_yields_addMany (length_puts hpaired ▸ hroom) hshort
      rw [if_pos hroom, hyields.answer] at h
      cases h
    · rw [if_neg hroom] at h ⊢
      cases h
      exact ⟨rfl, rfl⟩
  · rw [if_neg hpaired] at h ⊢
    rw [if_neg hpaired]
    cases h
    exact ⟨rfl, rfl⟩

end Batch

/-! ## The law of many puts -/

/-- Keys and values short enough for a batch are put into any batch together if
there are as many of one as of the other and the batch has room for as many more.
The batch is then the one that the same puts lead to, made one after the other,
and each of these is accepted. Otherwise the batch stays as it was, and the refusal
says which of the two was missing. -/
theorem Batch.putMany_all_or_nothing (b : Batch) (keys values : List Bytes)
    (hkeys : ∀ key ∈ keys, key.length ≤ 2 ^ 32 - 1)
    (hvalues : ∀ value ∈ values, value.length ≤ 2 ^ 32 - 1) :
    ((b.putMany keys values).answer = .ok () ↔
      keys.length = values.length ∧ b.count + keys.length ≤ 2 ^ 32 - 1) ∧
    ((b.putMany keys values).answer = .ok () →
      Accepts b (List.zipWith .put keys values) (b.putMany keys values).state) ∧
    ∀ reason, (b.putMany keys values).answer = .error reason →
      (b.putMany keys values).state = b ∧
      reason = (if keys.length = values.length then .tooMany
        else .unpaired keys.length values.length) ∧
      (Error.refused reason).message = "internal error: " ++ reason.message := by
  have hshort := short_puts (fun key hkey => Nat.lt_of_le_pred (by decide) (hkeys key hkey))
    fun value hvalue => Nat.lt_of_le_pred (by decide) (hvalues value hvalue)
  have hroom : b.count + keys.length ≤ 2 ^ 32 - 1 ↔ b.count + keys.length < Word.limit := by
    rw [Word.limit]
    omega
  refine ⟨?_, fun hok => (yields_putMany_iff.mp ⟨hok, rfl⟩).2, fun reason hreason => ?_⟩
  · rw [hroom]
    constructor
    · intro hok
      obtain ⟨hpaired, hputs⟩ := yields_putMany_iff.mp ⟨hok, rfl⟩
      obtain ⟨hfew, -⟩ := yields_addMany_iff.mp ⟨_, accepts_puts_iff.mp hputs⟩
      exact ⟨hpaired, length_puts hpaired ▸ hfew⟩
    · rintro ⟨hpaired, hfew⟩
      obtain ⟨b', hyields⟩ := exists_yields_addMany (length_puts hpaired ▸ hfew) hshort
      rw [putMany_of_short hshort, if_pos hpaired, if_pos hfew]
      exact hyields.answer
  · obtain ⟨hfail, hwhich⟩ := putMany_eq_fail hshort hreason
    exact ⟨by rw [hfail]; rfl, hwhich, rfl⟩

/-- Bytes that claim two operations less than a word can count, with nothing behind
the claim. Two puts are accepted and three are not; a batch whose bytes are too few
for a count takes them all. -/
theorem Batch.putMany_all_or_nothing_at_limit :
    Accepts ⟨[253, 255, 255, 255]⟩ [.put [97] [1], .put [98] []]
      (Batch.putMany [[97], [98]] [[1], []] ⟨[253, 255, 255, 255]⟩).state ∧
    (Batch.putMany [[97], [98], [99]] [[1], [], [2]] ⟨[253, 255, 255, 255]⟩).state =
      ⟨[253, 255, 255, 255]⟩ ∧
    Accepts ⟨[1, 0]⟩ [.put [97] [1], .put [98] [], .put [99] [2]]
      (Batch.putMany [[97], [98], [99]] [[1], [], [2]] ⟨[1, 0]⟩).state := by
  refine ⟨?_, ?_, ?_⟩
  · exact (putMany_all_or_nothing _ [[97], [98]] [[1], []] (by decide) (by decide)).2.1 rfl
  · exact ((putMany_all_or_nothing _ [[97], [98], [99]] [[1], [], [2]] (by decide)
      (by decide)).2.2 .tooMany rfl).1
  · exact (putMany_all_or_nothing _ [[97], [98], [99]] [[1], [], [2]] (by decide)
      (by decide)).2.1 rfl

end PagedScan
