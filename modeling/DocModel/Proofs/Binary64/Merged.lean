import DocModel.Proofs.Binary64.Round

namespace DocModel

open Binary64 (nearest nearestInt roundHalfEven)

namespace Word

/-- An integer of 64 bits, signed or not. -/
def Fits (n : Int) : Prop := -signedEnd ≤ n ∧ n < unsignedEnd

instance (n : Int) : Decidable (Fits n) := inferInstanceAs (Decidable (_ ∧ _))

theorem Fits.natAbs_lt {n : Int} (h : Fits n) : n.natAbs < 2 ^ 64 := by
  have bounds : (signedEnd : Int) = 2 ^ 63 ∧ (unsignedEnd : Int) = 2 ^ 64 := ⟨rfl, rfl⟩
  have lower := h.1
  have upper := h.2
  omega

/-- Two integers, not both signed, that round to one float: from `2 ^ 63` on floats are 2048 apart,
and the last 512 signed integers round up to `2 ^ 63`. -/
structure Merged (m n : Int) : Prop where
  unsigned : signedEnd ≤ max m n
  close : signedEnd - 512 ≤ min m n
  rounded : roundHalfEven m.toNat 2048 = roundHalfEven n.toNat 2048

variable {m n : Int}

theorem Merged.symm (h : Merged m n) : Merged n m where
  unsigned := by
    rw [Int.max_comm]
    exact h.unsigned
  close := by
    rw [Int.min_comm]
    exact h.close
  rounded := h.rounded.symm

end Word

namespace Binary64

variable {j k : Nat} {m n : Int}

/-- Just below `2 ^ 63` floats are 1024 apart. -/
theorem roundHalfEven_below (lower : 2 ^ 62 ≤ j) (upper : j < 2 ^ 63) :
    (roundHalfEven j 1024 = 2 ^ 53 ↔ 2 ^ 63 - 512 ≤ j) ∧
      (2 ^ 63 - 512 ≤ j → roundHalfEven j 2048 = 2 ^ 52) := by
  unfold roundHalfEven
  dsimp only
  constructor
  · split
    · omega
    · split <;> omega
  · intro close
    split
    · omega
    · split <;> omega

theorem nearest_eq_nearest_iff (lower : 2 ^ 63 ≤ k) (upper : k < 2 ^ 64) (le : j ≤ k) :
    nearest j = nearest k ↔
      2 ^ 63 - 512 ≤ j ∧ roundHalfEven j 2048 = roundHalfEven k 2048 := by
  have top : nearest k = roundHalfEven k 2048 * 2048 := nearest_eq (e := 11) lower upper
  have least : 2 ^ 52 ≤ roundHalfEven k 2048 := (roundHalfEven_range (e := 11) lower upper).1
  -- The smaller number is in the range of the larger one, in the range before, or further down.
  by_cases high : 2 ^ 63 ≤ j
  · have own : nearest j = roundHalfEven j 2048 * 2048 :=
      nearest_eq (e := 11) high (Nat.lt_of_le_of_lt le upper)
    rw [own, top]
    omega
  · by_cases middle : 2 ^ 62 ≤ j
    · have below : j < 2 ^ 63 := Nat.lt_of_not_le high
      have own : nearest j = roundHalfEven j 1024 * 1024 := nearest_eq (e := 10) middle below
      have most : roundHalfEven j 1024 ≤ 2 ^ 53 := (roundHalfEven_range (e := 10) middle below).2
      obtain ⟨carried, first⟩ := roundHalfEven_below middle below
      rw [own, top]
      omega
    · have most : nearest j ≤ 2 ^ 62 := nearest_le_two_pow (e := 9) (Nat.lt_of_not_le middle)
      rw [top]
      omega

theorem nearestInt_of_nonneg (h : 0 ≤ n) : nearestInt n = nearest n.toNat := by
  rw [nearestInt, if_neg (Int.not_lt.2 h), show n.natAbs = n.toNat by omega]

theorem nearestInt_eq_iff_of_le (fits : Word.Fits n) (unsigned : Word.signedEnd ≤ n) (le : m ≤ n) :
    nearestInt m = nearestInt n ↔ m = n ∨ Word.Merged m n := by
  have bounds : (Word.signedEnd : Int) = 2 ^ 63 ∧ (Word.unsignedEnd : Int) = 2 ^ 64 := ⟨rfl, rfl⟩
  have lower : 2 ^ 63 ≤ n.toNat := by omega
  have upper : n.toNat < 2 ^ 64 := by
    have := fits.2
    omega
  have top := nearest_eq_nearest_iff lower upper (Int.toNat_le_toNat le)
  have large : 2 ^ 63 ≤ nearest n.toNat := two_pow_le_nearest (e := 11) lower
  rw [nearestInt_of_nonneg (n := n) (by omega)]
  constructor
  · intro same
    have sign : 0 ≤ m := by
      apply Int.not_lt.1
      intro negative
      rw [nearestInt, if_pos negative] at same
      omega
    rw [nearestInt_of_nonneg sign, Int.natCast_inj, top] at same
    exact .inr ⟨by omega, by omega, same.2⟩
  · intro same
    obtain rfl | merged := same
    · exact nearestInt_of_nonneg (by omega)
    · have close := merged.close
      rw [nearestInt_of_nonneg (by omega), Int.natCast_inj, top]
      exact ⟨by omega, merged.rounded⟩

/-- As floats two integers of 64 bits, not both signed, are one if they are the same or merged. -/
theorem scaled_ofInt_eq_iff (fits : Word.Fits m) (fits' : Word.Fits n)
    (unsigned : Word.signedEnd ≤ max m n) :
    (ofInt m).scaled = (ofInt n).scaled ↔ m = n ∨ Word.Merged m n := by
  rw [scaled_ofInt fits.natAbs_lt, scaled_ofInt fits'.natAbs_lt,
    Int.mul_eq_mul_right_iff one_ne_zero]
  -- Both sides are symmetric, so that the larger number may stand second.
  by_cases le : m ≤ n
  · rw [Int.max_eq_right le] at unsigned
    exact nearestInt_eq_iff_of_le fits' unsigned le
  · have le' : n ≤ m := Int.le_of_lt (Int.not_le.1 le)
    rw [Int.max_eq_left le'] at unsigned
    rw [eq_comm, nearestInt_eq_iff_of_le fits unsigned le', eq_comm (a := n)]
    exact or_congr_right ⟨Word.Merged.symm, Word.Merged.symm⟩

end Binary64

end DocModel
