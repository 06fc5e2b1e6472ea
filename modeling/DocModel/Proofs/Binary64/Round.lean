import Mathlib.Algebra.Group.Int.Defs
import Mathlib.Algebra.Group.Nat.Defs
import DocModel.Binary64

namespace DocModel.Binary64

variable {num den scale n k e : Nat}

/-- The exponent is kept from the evaluator, which would write the power out. -/
theorem one_eq_two_pow : ∃ e ≤ 1074, one = 2 ^ e := by
  refine ⟨1074, Nat.le_refl _, ?_⟩
  unfold one
  generalize 1074 = e
  rfl

theorem one_pos : 0 < one := by
  obtain ⟨e, -, same⟩ := one_eq_two_pow
  rw [same]
  exact Nat.two_pow_pos e

theorem one_ne_zero : (one : Int) ≠ 0 := Int.natCast_ne_zero.2 (Nat.ne_of_gt one_pos)

theorem spacing_pos (units : Nat) : 0 < spacing units := Nat.pow_pos (by decide)

theorem div_le_roundHalfEven : num / den ≤ roundHalfEven num den := by
  unfold roundHalfEven
  dsimp only
  split
  · exact Nat.le_refl _
  · split <;> omega

theorem roundHalfEven_le : roundHalfEven num den ≤ num / den + 1 := by
  unfold roundHalfEven
  dsimp only
  split
  · omega
  · split <;> omega

theorem roundHalfEven_mul (h : 0 < scale) :
    roundHalfEven (num * scale) (den * scale) = roundHalfEven num den := by
  simp only [roundHalfEven, Nat.mul_div_mul_right _ _ h, Nat.mul_mod_mul_right, ← Nat.mul_assoc,
    Nat.mul_lt_mul_right h]

theorem roundHalfEven_mul_self (h : 0 < den) : roundHalfEven (n * den) den = n := by
  simp [roundHalfEven, Nat.mul_div_cancel _ h, h]

theorem spacing_eq (lower : 2 ^ (52 + e) ≤ n) (upper : n < 2 ^ (53 + e)) : spacing n = 2 ^ e := by
  have filled : n ≠ 0 := Nat.ne_of_gt (Nat.lt_of_lt_of_le (Nat.two_pow_pos _) lower)
  have top : n.log2 = 52 + e := by
    rw [Nat.log2_eq_iff filled]
    exact ⟨lower, by rwa [show 52 + e + 1 = 53 + e by omega]⟩
  rw [spacing, top, Nat.add_sub_cancel_left, Nat.pow_eq]

theorem spacing_of_lt (h : n < 2 ^ 53) : spacing n = 1 := by
  have small : n.log2 - 52 = 0 := by
    by_cases empty : n = 0
    · rw [empty]
      decide
    · have bound := (Nat.log2_lt empty).2 h
      omega
  rw [spacing, small, Nat.pow_eq, Nat.pow_zero]

theorem exists_range (h : 2 ^ 53 ≤ n) : ∃ e, 2 ^ (52 + e) ≤ n ∧ n < 2 ^ (53 + e) := by
  have filled : n ≠ 0 := Nat.ne_of_gt (Nat.lt_of_lt_of_le (Nat.two_pow_pos _) h)
  have top : 53 ≤ n.log2 := (Nat.le_log2 filled).2 h
  have range := (Nat.log2_eq_iff filled).1 rfl
  refine ⟨n.log2 - 52, ?_, ?_⟩
  · rw [Nat.add_sub_cancel' (by omega)]
    exact range.1
  · rw [show 53 + (n.log2 - 52) = n.log2 + 1 by omega]
    exact range.2

theorem spacing_dvd_mul_pow (h : k ≤ 2 ^ 53) : spacing (k * 2 ^ e) ∣ k * 2 ^ e := by
  by_cases small : k * 2 ^ e < 2 ^ 53
  · rw [spacing_of_lt small]
    exact Nat.one_dvd _
  · obtain ⟨d, lower, upper⟩ := exists_range (Nat.le_of_not_lt small)
    rw [spacing_eq lower upper]
    obtain rfl | less := Nat.eq_or_lt_of_le h
    · rw [← Nat.pow_add] at lower upper ⊢
      have below := (Nat.pow_le_pow_iff_right (by decide)).1 lower
      exact Nat.pow_dvd_pow 2 (by omega)
    · have within : k * 2 ^ e < 2 ^ (53 + e) := by
        rw [Nat.pow_add]
        exact Nat.mul_lt_mul_of_pos_right less (Nat.two_pow_pos e)
      have below := (Nat.pow_lt_pow_iff_right (by decide)).1 (Nat.lt_of_le_of_lt lower within)
      exact Nat.dvd_mul_left_of_dvd (Nat.pow_dvd_pow 2 (by omega)) k

/-- The nearest number of 53 significant bits; a half goes to the even neighbour. -/
def nearest (n : Nat) : Nat := roundHalfEven n (spacing n) * spacing n

theorem nearest_of_dvd (h : spacing n ∣ n) : nearest n = n := by
  obtain ⟨q, split⟩ := h
  have whole : roundHalfEven n (spacing n) = q := by
    have cancel := roundHalfEven_mul_self (n := q) (spacing_pos n)
    rwa [Nat.mul_comm, ← split] at cancel
  rw [nearest, whole, Nat.mul_comm, ← split]

theorem nearest_of_lt (h : n < 2 ^ 53) : nearest n = n := by
  apply nearest_of_dvd
  rw [spacing_of_lt h]
  exact Nat.one_dvd n

theorem nearest_eq (lower : 2 ^ (52 + e) ≤ n) (upper : n < 2 ^ (53 + e)) :
    nearest n = roundHalfEven n (2 ^ e) * 2 ^ e := by
  rw [nearest, spacing_eq lower upper]

theorem roundHalfEven_range (lower : 2 ^ (52 + e) ≤ n) (upper : n < 2 ^ (53 + e)) :
    2 ^ 52 ≤ roundHalfEven n (2 ^ e) ∧ roundHalfEven n (2 ^ e) ≤ 2 ^ 53 := by
  have pos := Nat.two_pow_pos e
  rw [Nat.pow_add] at lower upper
  have least : 2 ^ 52 ≤ n / 2 ^ e := (Nat.le_div_iff_mul_le pos).2 lower
  have most : n / 2 ^ e < 2 ^ 53 := (Nat.div_lt_iff_lt_mul pos).2 upper
  exact ⟨Nat.le_trans least div_le_roundHalfEven, Nat.le_trans roundHalfEven_le most⟩

theorem nearest_range (lower : 2 ^ (52 + e) ≤ n) (upper : n < 2 ^ (53 + e)) :
    2 ^ (52 + e) ≤ nearest n ∧ nearest n ≤ 2 ^ (53 + e) := by
  obtain ⟨least, most⟩ := roundHalfEven_range lower upper
  rw [nearest_eq lower upper, Nat.pow_add, Nat.pow_add]
  exact ⟨Nat.mul_le_mul_right _ least, Nat.mul_le_mul_right _ most⟩

theorem spacing_dvd_nearest (n : Nat) : spacing (nearest n) ∣ nearest n := by
  by_cases small : n < 2 ^ 53
  · rw [nearest_of_lt small, spacing_of_lt small]
    exact Nat.one_dvd n
  · obtain ⟨e, lower, upper⟩ := exists_range (Nat.le_of_not_lt small)
    rw [nearest_eq lower upper]
    exact spacing_dvd_mul_pow (roundHalfEven_range lower upper).2

theorem nearest_le_two_pow (h : n < 2 ^ (53 + e)) : nearest n ≤ 2 ^ (53 + e) := by
  by_cases small : n < 2 ^ 53
  · rw [nearest_of_lt small]
    exact Nat.le_of_lt h
  · obtain ⟨d, lower, upper⟩ := exists_range (Nat.le_of_not_lt small)
    have below := (Nat.pow_lt_pow_iff_right (by decide)).1 (Nat.lt_of_le_of_lt lower h)
    exact Nat.le_trans (nearest_range lower upper).2 (Nat.pow_le_pow_right (by decide) (by omega))

theorem two_pow_le_nearest (h : 2 ^ (52 + e) ≤ n) : 2 ^ (52 + e) ≤ nearest n := by
  by_cases small : n < 2 ^ 53
  · rwa [nearest_of_lt small]
  · obtain ⟨d, lower, upper⟩ := exists_range (Nat.le_of_not_lt small)
    have below := (Nat.pow_lt_pow_iff_right (by decide)).1 (Nat.lt_of_le_of_lt h upper)
    exact Nat.le_trans (Nat.pow_le_pow_right (by decide) (by omega)) (nearest_range lower upper).1

theorem nearest_mul_two_pow (n e : Nat) : nearest (n * 2 ^ e) = nearest n * 2 ^ e := by
  by_cases small : n < 2 ^ 53
  · rw [nearest_of_lt small]
    exact nearest_of_dvd (spacing_dvd_mul_pow (Nat.le_of_lt small))
  · obtain ⟨d, lower, upper⟩ := exists_range (Nat.le_of_not_lt small)
    have pos := Nat.two_pow_pos e
    have lower' : 2 ^ (52 + (d + e)) ≤ n * 2 ^ e := by
      rw [← Nat.add_assoc, Nat.pow_add]
      exact Nat.mul_le_mul_right _ lower
    have upper' : n * 2 ^ e < 2 ^ (53 + (d + e)) := by
      rw [← Nat.add_assoc, Nat.pow_add]
      exact Nat.mul_lt_mul_of_pos_right upper pos
    rw [nearest_eq lower' upper', nearest_eq lower upper, Nat.pow_add, roundHalfEven_mul pos,
      Nat.mul_assoc]

/-- A number below `2 ^ 53`, or one up to `2 ^ 54` that is twice an odd one. -/
def Alone (n : Nat) : Prop := n < 2 ^ 53 ∨ n < 2 ^ 54 ∧ n % 4 = 2

theorem eq_of_nearest_eq (alone : Alone n) (h : nearest k = n) : k = n := by
  by_cases small : k < 2 ^ 53
  · rwa [nearest_of_lt small] at h
  · obtain ⟨above, below⟩ | large : (2 ^ 53 ≤ k ∧ k < 2 ^ 54) ∨ 2 ^ 54 ≤ k := by omega
    · have least : 2 ^ 53 ≤ nearest k := two_pow_le_nearest (e := 1) above
      have twice : n % 4 = 2 := (alone.resolve_left (by omega)).2
      have own : nearest k = roundHalfEven k 2 * 2 := nearest_eq (e := 1) above below
      rw [own, roundHalfEven] at h
      split at h
      · omega
      · split at h <;> omega
    · have least : 2 ^ 54 ≤ nearest k := two_pow_le_nearest (e := 2) large
      have most : n < 2 ^ 54 := by
        obtain small | middle := alone
        · omega
        · exact middle.1
      omega

theorem roundHalfEven_mul_add (small : 2 * k < den) : roundHalfEven (n * den + k) den = n := by
  have less : k < den := by omega
  have quotient : (n * den + k) / den = n := by
    rw [Nat.mul_comm, Nat.mul_add_div (by omega), Nat.div_eq_of_lt less, Nat.add_zero]
  have remainder : (n * den + k) % den = k := by
    rw [Nat.mul_comm, Nat.mul_add_mod, Nat.mod_eq_of_lt less]
  simp only [roundHalfEven, quotient, remainder, if_pos small]

theorem nearest_add_one (lower : 2 ^ (52 + e) ≤ n) (upper : n < 2 ^ (53 + e)) (wide : 2 ≤ e)
    (exact : nearest n = n) : nearest (n + 1) = n := by
  rw [nearest_eq lower upper] at exact
  have gap : 4 ≤ 2 ^ e := Nat.pow_le_pow_right (n := 2) (by decide) wide
  have upper' : n + 1 < 2 ^ (53 + e) := by
    rw [← exact, Nat.pow_add] at upper ⊢
    have less : roundHalfEven n (2 ^ e) < 2 ^ 53 := Nat.lt_of_mul_lt_mul_right upper
    have next := Nat.mul_le_mul_right (2 ^ e) (Nat.succ_le_of_lt less)
    rw [Nat.succ_mul] at next
    omega
  have rounded : roundHalfEven (n + 1) (2 ^ e) = roundHalfEven n (2 ^ e) := by
    have near : roundHalfEven (roundHalfEven n (2 ^ e) * 2 ^ e + 1) (2 ^ e) =
        roundHalfEven n (2 ^ e) := roundHalfEven_mul_add (by omega)
    rwa [exact] at near
  rw [nearest_eq (Nat.le_succ_of_le lower) upper', rounded, exact]

theorem exists_nearest_eq (together : ¬ Alone n) (exact : nearest n = n) (within : n ≤ 2 ^ 63) :
    ∃ k, k ≠ n ∧ nearest k = n ∧ k < 2 ^ 63 := by
  rw [Alone, not_or, Nat.not_lt, not_and] at together
  obtain ⟨above, odd⟩ := together
  -- No signed integer follows `2 ^ 63`; the last one before it is rounded up to it.
  obtain rfl | less := Nat.eq_or_lt_of_le within
  · exact ⟨2 ^ 63 - 1, by decide, by decide +kernel, by decide⟩
  · obtain ⟨e, lower, upper⟩ := exists_range above
    have past : 0 < e := by
      apply Nat.pos_of_ne_zero
      intro flat
      rw [flat] at upper
      omega
    have even : n % 2 = 0 := by
      have divides : 2 ^ e ∣ n := by
        rw [← exact, nearest_eq lower upper]
        exact Nat.dvd_mul_left _ _
      exact Nat.mod_eq_zero_of_dvd (Nat.dvd_trans (Nat.pow_dvd_pow 2 past) divides)
    refine ⟨n + 1, by omega, ?_, by omega⟩
    obtain rfl | wide : e = 1 ∨ 2 ≤ e := by omega
    · have four : n % 4 = 0 := by
        have apart := odd upper
        omega
      have upper' : n + 1 < 2 ^ 54 := by omega
      rw [nearest_eq (e := 1) (Nat.le_succ_of_le lower) upper', roundHalfEven]
      split
      · omega
      · split <;> omega
    · exact nearest_add_one lower upper wide exact

theorem scaled_round {negative : Bool} (h : (nearest n).log2 < 2098) :
    (round negative n 1).scaled = if negative then -(nearest n : Int) else nearest n := by
  have kept : round? negative n 1 =
      some ⟨negative, nearest n, h, spacing_dvd_nearest n⟩ := by
    rw [round?, Nat.div_one, Nat.one_mul, ← nearest, ofUnits?, dif_pos ⟨h, spacing_dvd_nearest n⟩]
  rw [round, kept]
  rfl

theorem log2_lt_of_le (h : n ≤ 2 ^ k) (room : k < e) : n.log2 < e := by
  by_cases empty : n = 0
  · rw [empty, Nat.log2_zero]
    exact Nat.zero_lt_of_lt room
  · rw [Nat.log2_lt empty]
    exact Nat.lt_of_le_of_lt h (Nat.pow_lt_pow_right (by decide) room)

/-- The integer of 53 significant bits that is nearest to the given one. -/
def nearestInt (n : Int) : Int := if n < 0 then -(nearest n.natAbs : Int) else nearest n.natAbs

theorem natAbs_nearestInt (n : Int) : (nearestInt n).natAbs = nearest n.natAbs := by
  rw [nearestInt]
  split
  · rw [Int.natAbs_neg, Int.natAbs_natCast]
  · exact Int.natAbs_natCast _

/-- The signed integers of 64 bits that are rounded to one of them. -/
theorem nearestInt_unique_iff {n : Int} (exact : nearestInt n = n) (within : n.natAbs ≤ 2 ^ 63) :
    (∀ k : Int, -2 ^ 63 ≤ k → k < 2 ^ 63 → nearestInt k = n → k = n) ↔ Alone n.natAbs := by
  have own : nearest n.natAbs = n.natAbs := by rw [← natAbs_nearestInt, exact]
  constructor
  · intro unique
    apply Classical.byContradiction
    intro together
    obtain ⟨k, apart, same, inside⟩ := exists_nearest_eq together own within
    by_cases negative : n < 0
    · have filled : k ≠ 0 := by
        intro empty
        rw [empty, nearest_of_lt (by decide)] at same
        omega
      have rounds : nearestInt (-k) = n := by
        rw [nearestInt, if_pos (by omega), Int.natAbs_neg, Int.natAbs_natCast, same]
        omega
      have equal := unique (-k) (by omega) (by omega) rounds
      omega
    · have rounds : nearestInt k = n := by
        rw [nearestInt, if_neg (by omega), Int.natAbs_natCast, same]
        omega
      have equal := unique k (by omega) (by omega) rounds
      omega
  · intro alone k _ _ rounds
    have sizes : k.natAbs = n.natAbs := by
      apply eq_of_nearest_eq alone
      rw [← natAbs_nearestInt, rounds]
    rw [nearestInt, sizes, own] at rounds
    split at rounds <;> omega

theorem scaled_ofInt {n : Int} (h : n.natAbs < 2 ^ 64) :
    (ofInt n).scaled = nearestInt n * one := by
  obtain ⟨e, small, same⟩ := one_eq_two_pow
  have room : 64 + e < 2098 := by omega
  have scales : nearest (n.natAbs * one) = nearest n.natAbs * one := by
    rw [same]
    exact nearest_mul_two_pow _ e
  have bound : nearest (n.natAbs * one) ≤ 2 ^ (64 + e) := by
    rw [scales, same, Nat.pow_add]
    exact Nat.mul_le_mul_right _ (nearest_le_two_pow (e := 11) h)
  have within : (nearest (n.natAbs * one)).log2 < 2098 := log2_lt_of_le bound room
  rw [ofInt, scaled_round within, scales, nearestInt]
  simp only [decide_eq_true_eq, Int.natCast_mul]
  split
  · rw [Int.neg_mul]
  · rfl

theorem scaled_ofInt_of_eq {n : Int} {x : Binary64} (h : n * one = x.scaled) :
    (ofInt n).scaled = n * one := by
  have units : n.natAbs * one = x.units := by
    have sizes := congrArg Int.natAbs h
    rw [Int.natAbs_mul, Int.natAbs_natCast, scaled] at sizes
    rw [sizes]
    split
    · exact Int.natAbs_neg _
    · rfl
  have exact : nearest (n.natAbs * one) = n.natAbs * one := by
    rw [units]
    exact nearest_of_dvd x.spacing_dvd
  have within : (nearest (n.natAbs * one)).log2 < 2098 := by
    rw [exact, units]
    exact x.log2_lt
  rw [ofInt, scaled_round within, exact, Int.natCast_mul]
  simp only [decide_eq_true_eq]
  split
  · rw [← Int.neg_mul, show -(n.natAbs : Int) = n by omega]
  · rw [show (n.natAbs : Int) = n by omega]

end DocModel.Binary64
