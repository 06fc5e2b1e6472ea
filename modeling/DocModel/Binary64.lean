namespace DocModel

/-- The gap between neighbouring binary64 magnitudes around `units`, which keeps 53 significant
bits. -/
def Binary64.spacing (units : Nat) : Nat := Nat.pow 2 (units.log2 - 52)

/-- A finite binary64 number: a sign, and a magnitude counted in the smallest unit `2 ^ -1074`. -/
structure Binary64 where
  negative : Bool
  units : Nat
  log2_lt : units.log2 < 2098
  spacing_dvd : Binary64.spacing units ∣ units
deriving DecidableEq

namespace Binary64

/-- The number `1`, counted in the smallest unit. -/
def one : Nat := Nat.pow 2 1074

def zero (negative : Bool) : Binary64 := ⟨negative, 0, by decide, by decide⟩

/-- The largest finite magnitude. -/
def largest (negative : Bool) : Binary64 :=
  ⟨negative, (Nat.pow 2 53 - 1) * Nat.pow 2 2045, by decide +kernel, by decide +kernel⟩

def neg (x : Binary64) : Binary64 := { x with negative := !x.negative }

/-- The signed value in the smallest unit; the two zeros share theirs. -/
def scaled (x : Binary64) : Int := if x.negative then -x.units else x.units

/-- Order and equality of values are those of the integers they scale to. -/
instance : LE Binary64 := ⟨fun x y => x.scaled ≤ y.scaled⟩

instance : LT Binary64 := ⟨fun x y => x.scaled < y.scaled⟩

instance (x y : Binary64) : Decidable (x ≤ y) := inferInstanceAs (Decidable (x.scaled ≤ y.scaled))

instance (x y : Binary64) : Decidable (x < y) := inferInstanceAs (Decidable (x.scaled < y.scaled))

def sameValue (x y : Binary64) : Bool := x.scaled == y.scaled

/-- The integer nearest to `num / den`; a half goes to the even neighbour. -/
def roundHalfEven (num den : Nat) : Nat :=
  let quotient := num / den
  let remainder := num % den
  if 2 * remainder < den then quotient
  else if den < 2 * remainder then quotient + 1
  else quotient + quotient % 2

def ofUnits? (negative : Bool) (units : Nat) : Option Binary64 :=
  if h : units.log2 < 2098 ∧ spacing units ∣ units then some ⟨negative, units, h.1, h.2⟩ else none

/-- The number nearest to `num / den` smallest units, or `none` past the largest finite one. -/
def round? (negative : Bool) (num den : Nat) : Option Binary64 :=
  let gap := spacing (num / den)
  ofUnits? negative (roundHalfEven num (den * gap) * gap)

/-- Rounding that stops at the largest finite magnitude. -/
def round (negative : Bool) (num den : Nat) : Binary64 :=
  (round? negative num den).getD (largest negative)

def ofInt (n : Int) : Binary64 := round (decide (n < 0)) (n.natAbs * one) 1

def mul? (x y : Binary64) : Option Binary64 :=
  round? (x.negative != y.negative) (x.units * y.units) one

def div (x y : Binary64) : Binary64 :=
  round (x.negative != y.negative) (x.units * one) y.units

/-- The number nearest to `10 ^ exponent`. -/
def tenPow (exponent : Nat) : Binary64 := round false (Nat.pow 10 exponent * one) 1

end Binary64

namespace Word

/-- The unsigned integers of 64 bits end before this number. -/
def unsignedEnd : Nat := Nat.pow 2 64

/-- The signed integers of 64 bits begin with its negative and end before this number. -/
def signedEnd : Nat := Nat.pow 2 63

/-- The integer if it is a signed one of 64 bits. -/
def signed? (n : Int) : Option Int := if -signedEnd ≤ n ∧ n < signedEnd then some n else none

end Word

end DocModel
