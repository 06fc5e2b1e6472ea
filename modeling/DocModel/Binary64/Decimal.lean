import DocModel.Binary64

namespace DocModel

/-- The decimal `coefficient * 10 ^ exponent`. -/
structure Decimal where
  coefficient : Nat
  exponent : Int
deriving DecidableEq

namespace Decimal

/-- Moves trailing zeros of the coefficient into the exponent. -/
def stripZeros (coefficient : Nat) (exponent : Int) : Decimal :=
  if h : 0 < coefficient ∧ coefficient % 10 = 0 then
    stripZeros (coefficient / 10) (exponent + 1)
  else ⟨coefficient, exponent⟩
termination_by coefficient
decreasing_by omega

def digits (d : Decimal) : List Char := Nat.toDigits 10 d.coefficient

/-- The exponent of the leading digit. -/
def scale (d : Decimal) : Int := d.exponent + d.digits.length - 1

/-- The digits before and after the point in positional notation. -/
def positional (d : Decimal) : List Char × List Char :=
  let digits := d.digits
  let point := d.scale + 1
  if point ≤ 0 then (['0'], List.replicate (-point).toNat '0' ++ digits)
  else
    let point := point.toNat
    (digits.take point ++ List.replicate (point - digits.length) '0', digits.drop point)

end Decimal

namespace Binary64

/-- Where a value half way between two decimals goes. -/
inductive Tie
  | toEven
  | up
deriving DecidableEq

/-- The integer nearest to `num / den`. -/
def Tie.round : Tie → Nat → Nat → Nat
  | toEven, num, den => roundHalfEven num den
  | up, num, den => (2 * num + den) / (2 * den)

/-- How a number is laid out: which of two equally near decimals stands for it, which leading
exponents are positional, and what ends a whole number. -/
structure Layout where
  tie : Tie
  isPositional : Int → Bool
  wholeMark : String

/-- A magnitude of smallest units over the decimal grid `10 ^ exponent`, as numerator and
denominator. -/
def onGrid (units : Nat) (exponent : Int) : Nat × Nat :=
  if 0 ≤ exponent then (units, one * Nat.pow 10 exponent.toNat)
  else (units * Nat.pow 10 (-exponent).toNat, one)

/-- Whether the magnitude is at least `10 ^ exponent`. -/
def reaches (units : Nat) (exponent : Int) : Bool :=
  let (num, den) := onGrid units exponent
  decide (den ≤ num)

/-- The exponent of the leading decimal digit; the estimate from the binary length is off by at
most one. -/
def leadingExponent (units : Nat) : Int :=
  let estimate := ((units.log2 : Int) - 1074) * 30103 / 100000
  if reaches units (estimate + 1) then estimate + 1
  else if reaches units estimate then estimate
  else estimate - 1

/-- Whether the decimal rounds to the magnitude. -/
def readsBack (units : Nat) (d : Decimal) : Bool :=
  let (num, den) :=
    if 0 ≤ d.exponent then (d.coefficient * Nat.pow 10 d.exponent.toNat * one, 1)
    else (d.coefficient * one, Nat.pow 10 (-d.exponent).toNat)
  (round? false num den).any (·.units == units)

/-- The neighbours of the magnitude on a decimal grid, the nearer one first. -/
def neighbours (tie : Tie) (units : Nat) (exponent : Int) : List Decimal :=
  let (num, den) := onGrid units exponent
  let nearest := tie.round num den
  let below := num / den
  [⟨nearest, exponent⟩, ⟨if nearest = below then below + 1 else below, exponent⟩]

/-- The decimal of fewest digits that reads back, and the nearest of those; 17 digits always do. -/
def shortest (tie : Tie) (units : Nat) : Decimal :=
  let lead := leadingExponent units
  let chosen := (List.range 17).findSome? fun (n : Nat) =>
    (neighbours tie units (lead - n)).find? (readsBack units)
  (chosen.map fun d => Decimal.stripZeros d.coefficient d.exponent).getD ⟨0, 0⟩

def digitsText (layout : Layout) (d : Decimal) : String :=
  if layout.isPositional d.scale then
    let (whole, fraction) := d.positional
    if fraction.isEmpty then String.ofList whole ++ layout.wholeMark
    else String.ofList whole ++ "." ++ String.ofList fraction
  else
    let fraction := d.digits.drop 1
    String.ofList (d.digits.take 1) ++
      (if fraction.isEmpty then "" else "." ++ String.ofList fraction)
      ++ "e" ++ (if d.scale < 0 then "-" else "+") ++ toString d.scale.natAbs

/-- The text with the fewest digits that reads back, in the given layout. -/
def text (layout : Layout) (x : Binary64) : String :=
  let magnitude :=
    if x.units = 0 then "0" ++ layout.wholeMark else digitsText layout (shortest layout.tie x.units)
  if x.negative then "-" ++ magnitude else magnitude

/-- Limits are written positionally whatever their size, without a point when whole; a half goes
up. -/
def limitLayout : Layout := ⟨.up, fun _ => true, ""⟩

def limitText (x : Binary64) : String := x.text limitLayout

end Binary64

end DocModel
