import DocModel.Json.Equality
import DocModel.Proofs.Binary64.Merged

namespace DocModel

open Binary64 (nearestInt)

namespace Word

variable {m n : Int}

theorem signed?_eq_some_iff : signed? m = some n ↔ (-signedEnd ≤ m ∧ m < signedEnd) ∧ m = n := by
  rw [signed?]
  split
  · rename_i inside
    simp [inside]
  · rename_i outside
    simp [outside]

theorem signed?_eq_none_iff : signed? n = none ↔ ¬ (-signedEnd ≤ n ∧ n < signedEnd) := by
  rw [signed?]
  split
  · rename_i inside
    simp [inside]
  · rename_i outside
    simp [outside]

end Word

namespace Json.Number

variable {x y z : Number} {m n : Int}

theorem same_self (x : Number) : x.same x := by
  cases x with
  | int n => exact beq_self_eq_true n
  | float x => exact beq_self_eq_true x.scaled

theorem same_comm (x y : Number) : x.same y = y.same x := by
  cases x with
  | int m =>
    cases y with
    | int n => exact Bool.beq_comm
    | float y => rfl
  | float x =>
    cases y with
    | int n => rfl
    | float y => exact Bool.beq_comm

theorem same_trans (one : x.same y) (two : y.same z) : x.same z := by
  cases x with
  | int m =>
    cases y with
    | int n =>
      rw [beq_iff_eq.1 one]
      exact two
    | float y => cases one
  | float x =>
    cases y with
    | int n => cases one
    | float y =>
      cases z with
      | int n => cases two
      | float z => exact beq_iff_eq.2 ((beq_iff_eq.1 one).trans (beq_iff_eq.1 two))

theorem eq_of_signed? (h : x.signed? = some m) : x = .int m := by
  cases x with
  | int n => rw [(Word.signed?_eq_some_iff.1 h).2]
  | float x => cases h

theorem alike_of_signed (h : x.signed? = some m) (h' : y.signed? = some n) :
    x.alike y ↔ m = n := by
  simp [alike, h, h']

theorem alike_of_unsigned (h : x.signed? = none ∨ y.signed? = none) :
    x.alike y ↔ x.toBinary64.scaled = y.toBinary64.scaled := by
  rw [← beq_iff_eq (a := x.toBinary64.scaled), ← Binary64.sameValue, alike]
  obtain none | none := h
  · rw [none]
  · rw [none]
    cases x.signed? <;> rfl

theorem alike_self (x : Number) : x.alike x := by
  cases h : x.signed? with
  | some n => exact (alike_of_signed h h).2 rfl
  | none => exact (alike_of_unsigned (.inl h)).2 rfl

theorem alike_comm (x y : Number) : x.alike y ↔ y.alike x := by
  cases h : x.signed? with
  | none => rw [alike_of_unsigned (.inl h), alike_of_unsigned (.inr h), eq_comm]
  | some m =>
    cases h' : y.signed? with
    | none => rw [alike_of_unsigned (.inr h'), alike_of_unsigned (.inl h'), eq_comm]
    | some n => rw [alike_of_signed h h', alike_of_signed h' h, eq_comm]

/-- A number that is no signed integer stands between two different ones: it is compared with them
as a float, and they with one another exactly. -/
structure Bridges (x y z : Number) : Prop where
  between : y.signed? = none
  ends : ∃ m n, x.signed? = some m ∧ z.signed? = some n ∧ m ≠ n

theorem toBinary64_scaled_eq_of_alike (h : x.alike y) :
    x.toBinary64.scaled = y.toBinary64.scaled := by
  cases left : x.signed? with
  | none => exact (alike_of_unsigned (.inl left)).1 h
  | some m =>
    cases right : y.signed? with
    | none => exact (alike_of_unsigned (.inr right)).1 h
    | some n => rw [eq_of_signed? left, eq_of_signed? right, (alike_of_signed left right).1 h]

theorem Bridges.signed (h : Bridges x y z) : x.signed? ≠ none ∧ z.signed? ≠ none := by
  obtain ⟨m, n, left, right, -⟩ := h.ends
  simp [left, right]

theorem alike_trans_iff (first : x.alike y) (second : y.alike z) :
    x.alike z ↔ ¬ Bridges x y z := by
  by_cases unsigned : x.signed? = none ∨ z.signed? = none
  · refine iff_of_true ?_ fun bridges => ?_
    · rw [alike_of_unsigned unsigned, toBinary64_scaled_eq_of_alike first]
      exact toBinary64_scaled_eq_of_alike second
    · exact unsigned.elim bridges.signed.1 bridges.signed.2
  · rw [not_or] at unsigned
    obtain ⟨m, left⟩ := Option.ne_none_iff_exists'.1 unsigned.1
    obtain ⟨n, right⟩ := Option.ne_none_iff_exists'.1 unsigned.2
    rw [alike_of_signed left right]
    constructor
    · intro same bridges
      obtain ⟨m', n', left', right', apart⟩ := bridges.ends
      cases left.symm.trans left'
      cases right.symm.trans right'
      exact apart same
    · intro unbridged
      apply Classical.byContradiction
      intro apart
      refine unbridged ⟨?_, m, n, left, right, apart⟩
      -- A signed integer between them would be both of them.
      cases between : y.signed? with
      | none => rfl
      | some k =>
        have one := (alike_of_signed left between).1 first
        have two := (alike_of_signed between right).1 second
        exact absurd (one.trans two) apart

/-- Integers of 64 bits are told apart but for those that are merged. -/
theorem int_alike_iff (fits : Word.Fits m) (fits' : Word.Fits n) :
    (int m).alike (int n) ↔ m = n ∨ Word.Merged m n := by
  by_cases signed : max m n < Word.signedEnd
  · have left : (int m).signed? = some m :=
      Word.signed?_eq_some_iff.2 ⟨⟨fits.1, by omega⟩, rfl⟩
    have right : (int n).signed? = some n :=
      Word.signed?_eq_some_iff.2 ⟨⟨fits'.1, by omega⟩, rfl⟩
    rw [alike_of_signed left right, or_iff_left]
    intro merged
    have unsigned := merged.unsigned
    omega
  · have none : (int m).signed? = none ∨ (int n).signed? = none := by
      by_cases left : m < Word.signedEnd
      · exact .inr (Word.signed?_eq_none_iff.2 (by omega))
      · exact .inl (Word.signed?_eq_none_iff.2 (by omega))
    rw [alike_of_unsigned none]
    exact Binary64.scaled_ofInt_eq_iff fits fits' (Int.not_lt.1 signed)

/-- The exact value, counted in the smallest unit of floats. -/
def scaled : Number → Int
  | int n => n * Binary64.one
  | float x => x.scaled

/-- The numbers are equal, whatever their forms. -/
def Equal (x y : Number) : Prop := x.scaled = y.scaled

/-- The numbers are equal and of one form. -/
def Identical (x y : Number) : Prop := x.same y

instance (x y : Number) : Decidable (Equal x y) := inferInstanceAs (Decidable (_ = _))

instance (x y : Number) : Decidable (Identical x y) := inferInstanceAs (Decidable (_ = _))

theorem toBinary64_scaled_eq (h : x.Equal y) :
    x.toBinary64.scaled = y.toBinary64.scaled := by
  cases x with
  | int m =>
    cases y with
    | int n => rw [Int.eq_of_mul_eq_mul_right Binary64.one_ne_zero h]
    | float y => exact (Binary64.scaled_ofInt_of_eq h).trans h
  | float x =>
    cases y with
    | int n => exact h.trans (Binary64.scaled_ofInt_of_eq h.symm).symm
    | float y => exact h

theorem eq_of_signed?_of_equal (h : x.Equal y) (left : x.signed? = some m)
    (right : y.signed? = some n) : x = y := by
  rw [eq_of_signed? left, eq_of_signed? right] at h ⊢
  rw [Int.eq_of_mul_eq_mul_right Binary64.one_ne_zero h]

theorem alike_of_equal (h : x.Equal y) : x.alike y := by
  cases left : x.signed? with
  | none => exact (alike_of_unsigned (.inl left)).2 (toBinary64_scaled_eq h)
  | some m =>
    cases right : y.signed? with
    | none => exact (alike_of_unsigned (.inr right)).2 (toBinary64_scaled_eq h)
    | some n =>
      rw [eq_of_signed?_of_equal h left right]
      exact y.alike_self

/-- Numbers of one value that no comparison tells apart: they are of one form, or neither of them
is a signed integer that another one is rounded to. -/
def Steady (x y : Number) : Prop :=
  x.Equal y ∧
    (x.Identical y ∨ ∀ n, x.signed? = some n ∨ y.signed? = some n → Binary64.Alone n.natAbs)

theorem Steady.symm (h : Steady x y) : Steady y x := by
  refine ⟨h.1.symm, ?_⟩
  obtain same | alone := h.2
  · exact .inl ((same_comm y x).trans same)
  · exact .inr fun n signed => alone n signed.symm

/-- A signed integer and a float of its value are compared to one effect if no other signed integer
is rounded to this value. -/
theorem forall_alike_iff_alone {x : Binary64} (h : n * Binary64.one = x.scaled)
    (signed : (int n).signed? = some n) :
    (∀ z : Number, z.alike (int n) ↔ z.alike (float x)) ↔ Binary64.Alone n.natAbs := by
  have bounds : (Word.signedEnd : Int) = 2 ^ 63 := rfl
  have inside := (Word.signed?_eq_some_iff.1 signed).1
  have rounds : ∀ {k : Int}, -2 ^ 63 ≤ k → k < 2 ^ 63 →
      ((int k).alike (float x) ↔ nearestInt k = n) := by
    intro k lower upper
    rw [alike_of_unsigned (.inr rfl), toBinary64, toBinary64,
      Binary64.scaled_ofInt (by omega), ← h, Int.mul_eq_mul_right_iff Binary64.one_ne_zero]
  have exact : nearestInt n = n :=
    (rounds (by omega) (by omega)).1 (alike_of_equal (y := float x) h)
  rw [← Binary64.nearestInt_unique_iff exact (by omega)]
  constructor
  · intro all k lower upper same
    have signed' : (int k).signed? = some k := Word.signed?_eq_some_iff.2 ⟨by omega, rfl⟩
    exact (alike_of_signed signed' signed).1 ((all (int k)).2 ((rounds lower upper).2 same))
  · intro unique z
    cases left : z.signed? with
    | none =>
      rw [alike_of_unsigned (.inl left), alike_of_unsigned (.inl left),
        toBinary64_scaled_eq (x := int n) (y := float x) h]
    | some k =>
      have inside' := (Word.signed?_eq_some_iff.1 (eq_of_signed? left ▸ left)).1
      rw [alike_of_signed left signed, eq_of_signed? left, rounds (by omega) (by omega)]
      constructor
      · intro same
        rw [same, exact]
      · exact unique k (by omega) (by omega)

theorem steady_int_float_iff {x : Binary64} (h : n * Binary64.one = x.scaled) :
    (∀ z : Number, z.alike (int n) ↔ z.alike (float x)) ↔ Steady (int n) (float x) := by
  cases signed : (int n).signed? with
  | none =>
    refine iff_of_true (fun z => ?_) ⟨h, .inr fun m found => ?_⟩
    · rw [alike_of_unsigned (.inr signed), alike_of_unsigned (.inr rfl),
        toBinary64_scaled_eq (x := int n) (y := float x) h]
    · rw [signed] at found
      obtain found | found := found <;> cases found
  | some m =>
    obtain rfl : n = m := (Word.signed?_eq_some_iff.1 signed).2
    rw [forall_alike_iff_alone h signed]
    constructor
    · intro alone
      refine ⟨h, .inr fun m found => ?_⟩
      obtain found | found := found
      · cases signed.symm.trans found
        exact alone
      · cases found
    · intro steady
      exact (steady.2.resolve_left nofun) n (.inl signed)

/-- Numbers of one value are compared with all others to one effect exactly if they are steady. -/
theorem forall_alike_iff_steady (h : x.Equal y) :
    (∀ z : Number, z.alike x ↔ z.alike y) ↔ Steady x y := by
  cases x with
  | int m =>
    cases y with
    | int n =>
      obtain rfl := Int.eq_of_mul_eq_mul_right Binary64.one_ne_zero h
      exact iff_of_true (fun z => Iff.rfl) ⟨h, .inl (same_self _)⟩
    | float y => exact steady_int_float_iff h
  | float x =>
    cases y with
    | int n =>
      have swapped := steady_int_float_iff (n := n) h.symm
      constructor
      · intro all
        exact (swapped.1 fun z => (all z).symm).symm
      · intro steady z
        exact (swapped.2 steady.symm z).symm
    | float y =>
      refine iff_of_true (fun z => ?_) ⟨h, .inl (beq_iff_eq.2 h)⟩
      rw [alike_of_unsigned (.inr rfl), alike_of_unsigned (.inr rfl), toBinary64_scaled_eq h]

end Json.Number

end DocModel
