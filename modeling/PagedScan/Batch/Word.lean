import PagedScan.Bytes

/-!
# Words

Counts and lengths in a batch are words: four bytes, the least significant
first. A word holds a number below `Word.limit`.
-/

namespace PagedScan.Word

/-- The least number that does not fit a word. -/
def limit : Nat := 1 <<< 32

/-- How many bytes a word takes. -/
def width : Nat := 4

/-- The word that holds a number. -/
def encode (n : Nat) : Bytes :=
  [.ofNat n, .ofNat (n >>> 8), .ofNat (n >>> 16), .ofNat (n >>> 24)]

/-- The number in the word at the front of the bytes, and what is behind it. -/
def decode? : Bytes → Option (Nat × Bytes)
  | a :: b :: c :: d :: rest =>
      some (a.toNat + b.toNat <<< 8 + c.toNat <<< 16 + d.toNat <<< 24, rest)
  | _ => none

theorem decode?_encode {n : Nat} (h : n < limit) (rest : Bytes) :
    decode? (encode n ++ rest) = some (n, rest) := by
  simp only [limit] at h
  simp only [encode, List.cons_append, List.nil_append, decode?,
    UInt8.toNat_ofNat', Option.some.injEq, Prod.mk.injEq, and_true]
  omega

theorem eq_encode_of_decode? {bytes rest : Bytes} {n : Nat}
    (h : decode? bytes = some (n, rest)) : n < limit ∧ bytes = encode n ++ rest := by
  match bytes with
  | [] | [_] | [_, _] | [_, _, _] => cases h
  | a :: b :: c :: d :: behind =>
      simp only [decode?, Option.some.injEq, Prod.mk.injEq] at h
      obtain ⟨hn, rfl⟩ := h
      have ha := a.toNat_lt
      have hb := b.toNat_lt
      have hc := c.toNat_lt
      have hd := d.toNat_lt
      simp only [limit, encode, List.cons_append, List.nil_append, List.cons.injEq,
        ← UInt8.toNat_inj, UInt8.toNat_ofNat', and_true]
      omega

theorem exists_decode? {bytes : Bytes} (h : width ≤ bytes.length) :
    ∃ n rest, decode? bytes = some (n, rest) := by
  match bytes with
  | [] | [_] | [_, _] | [_, _, _] => simp [width] at h
  | _ :: _ :: _ :: _ :: rest => exact ⟨_, rest, rfl⟩

theorem length_encode (n : Nat) : (encode n).length = width := rfl

end PagedScan.Word
