import DocModel.Proofs.Binary64.Merged

namespace DocModel

namespace Binary64

variable {num other den j k : Nat} {m n : Int}

theorem roundHalfEven_mono (h : num ≤ other) : roundHalfEven num den ≤ roundHalfEven other den := by
  obtain less | same := Nat.lt_or_eq_of_le (Nat.div_le_div_right (c := den) h)
  · exact Nat.le_trans roundHalfEven_le (Nat.le_trans less div_le_roundHalfEven)
  · -- Of two numbers with one quotient the larger one has the larger remainder.
    have remainders : num % den ≤ other % den := by
      have split := Nat.div_add_mod num den
      have split' := Nat.div_add_mod other den
      rw [same] at split
      omega
    by_cases low : 2 * (num % den) < den
    · rw [roundHalfEven, if_pos low, same]
      exact div_le_roundHalfEven
    · have low' : ¬ 2 * (other % den) < den := by omega
      rw [roundHalfEven, if_neg low, roundHalfEven, if_neg low', same]
      by_cases high : den < 2 * (num % den)
      · have high' : den < 2 * (other % den) := by omega
        simp only [if_pos high, if_pos high', Nat.le_refl]
      · rw [if_neg high]
        split <;> omega

theorem nearest_mono (h : j ≤ k) : nearest j ≤ nearest k := by
  by_cases small : k < 2 ^ 53
  · rwa [nearest_of_lt small, nearest_of_lt (Nat.lt_of_le_of_lt h small)]
  · obtain ⟨e, lower, upper⟩ := exists_range (Nat.le_of_not_lt small)
    by_cases within : 2 ^ (52 + e) ≤ j
    · rw [nearest_eq within (Nat.lt_of_le_of_lt h upper), nearest_eq lower upper]
      exact Nat.mul_le_mul_right _ (roundHalfEven_mono h)
    · -- The smaller number stays below the range of the larger one, or comes to its beginning.
      obtain ⟨d, rfl⟩ : ∃ d, e = d + 1 := by
        refine ⟨e - 1, (Nat.succ_pred ?_).symm⟩
        rintro rfl
        exact small upper
      rw [show 52 + (d + 1) = 53 + d by omega] at within
      have most := nearest_le_two_pow (Nat.lt_of_not_le within)
      rw [show 53 + d = 52 + (d + 1) by omega] at most
      exact Nat.le_trans most (nearest_range lower upper).1

theorem nearestInt_mono (h : m ≤ n) : nearestInt m ≤ nearestInt n := by
  rw [nearestInt, nearestInt]
  split
  · split
    · have sizes := nearest_mono (j := n.natAbs) (k := m.natAbs) (by omega)
      omega
    · omega
  · rw [if_neg (by omega)]
    have sizes := nearest_mono (j := m.natAbs) (k := n.natAbs) (by omega)
    omega

theorem nearestInt_of_between {between : Int} (lower : m ≤ between) (upper : between ≤ n)
    (same : nearestInt m = nearestInt n) : nearestInt between = nearestInt m := by
  refine Int.le_antisymm ?_ (nearestInt_mono lower)
  rw [same]
  exact nearestInt_mono upper

theorem nearestInt_le_iff : nearestInt m ≤ nearestInt n ↔ m ≤ n ∨ nearestInt m = nearestInt n := by
  constructor
  · intro le
    by_cases order : m ≤ n
    · exact .inl order
    · exact .inr (Int.le_antisymm le (nearestInt_mono (Int.le_of_not_le order)))
  · intro either
    obtain order | same := either
    · exact nearestInt_mono order
    · exact Int.le_of_eq same

/-- As floats integers of 64 bits stand in their order, but that some become equal. -/
theorem ofInt_le_iff (fits : Word.Fits m) (fits' : Word.Fits n) :
    ofInt m ≤ ofInt n ↔ m ≤ n ∨ nearestInt m = nearestInt n := by
  have order : ofInt m ≤ ofInt n ↔ (ofInt m).scaled ≤ (ofInt n).scaled := Iff.rfl
  have pos : 0 < (one : Int) := Int.natCast_pos.2 one_pos
  rw [order, scaled_ofInt fits.natAbs_lt, scaled_ofInt fits'.natAbs_lt,
    Int.mul_le_mul_right pos, nearestInt_le_iff]

end Binary64

namespace Word

open Binary64 (nearestInt)

variable {m n : Int}

/-- No smaller integer of 64 bits is rounded to the same float. -/
def Starts (n : Int) : Prop := n = -signedEnd ∨ nearestInt (n - 1) ≠ nearestInt n

/-- No larger integer of 64 bits is rounded to the same float. -/
def Ends (n : Int) : Prop := n + 1 = unsignedEnd ∨ nearestInt (n + 1) ≠ nearestInt n

instance (n : Int) : Decidable (Starts n) := inferInstanceAs (Decidable (_ ∨ _))

instance (n : Int) : Decidable (Ends n) := inferInstanceAs (Decidable (_ ∨ _))

theorem starts_iff (fits : Fits m) :
    Starts m ↔ ∀ n, Fits n → nearestInt n = nearestInt m → m ≤ n := by
  constructor
  · intro starts n fits' same
    apply Int.not_lt.1
    intro less
    obtain first | apart := starts
    · have bound := fits'.1
      omega
    · have between := Binary64.nearestInt_of_between (Int.le_sub_one_of_lt less) (by omega) same
      exact apart (between.trans same)
  · intro least
    by_cases first : m = -signedEnd
    · exact .inl first
    · refine .inr fun same => ?_
      have order := least (m - 1) ⟨by have := fits.1; omega, by have := fits.2; omega⟩ same
      omega

theorem ends_iff (fits : Fits m) :
    Ends m ↔ ∀ n, Fits n → nearestInt n = nearestInt m → n ≤ m := by
  constructor
  · intro ends n fits' same
    apply Int.not_lt.1
    intro less
    obtain last | apart := ends
    · have bound := fits'.2
      omega
    · exact apart (Binary64.nearestInt_of_between (by omega) less same.symm)
  · intro greatest
    by_cases last : m + 1 = unsignedEnd
    · exact .inl last
    · refine .inr fun same => ?_
      have order := greatest (m + 1) ⟨by have := fits.1; omega, by have := fits.2; omega⟩ same
      omega

end Word

end DocModel
