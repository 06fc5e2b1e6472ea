import DocModel.Json.Token

namespace DocModel.Json

/-- The parts of a number as written. -/
structure NumberText where
  negative : Bool
  whole : List Char
  fraction : Option (List Char)
  exponent : Option (Bool × List Char)

def digitValue (c : Char) : Nat := c.toNat - '0'.toNat

/-- Reads digits while the value stays within 64 bits; gives back the digits left over. -/
def collectDigits (value : Nat) : List Char → Nat × List Char
  | [] => (value, [])
  | c :: rest =>
    let next := value * 10 + digitValue c
    if next < Word.unsignedEnd then collectDigits next rest else (value, c :: rest)

/-- How many digits are read until their value exceeds 31 bits, if it ever does. -/
def overflowAfter (value count : Nat) : List Char → Option Nat
  | [] => none
  | c :: rest =>
    let next := value * 10 + digitValue c
    if next < Nat.pow 2 31 then overflowAfter next (count + 1) rest else some (count + 1)

/-- Divides by a power of ten in steps of at most `10 ^ 308`, each rounded. -/
def shrink (x : Binary64) (exponent : Nat) : Binary64 :=
  if exponent ≤ 308 then x.div (.tenPow exponent)
  else if x.units = 0 then x
  else shrink (x.div (.tenPow 308)) (exponent - 308)
termination_by exponent

/-- A significand times a power of ten, each step rounded; `none` past the largest finite number. -/
def scaleByTen? (significand : Nat) (exponent : Int) : Option Binary64 :=
  let x := Binary64.ofInt significand
  if 0 ≤ exponent then
    if exponent ≤ 308 then x.mul? (.tenPow exponent.toNat)
    else if significand = 0 then some x
    else none
  else some (shrink x (-exponent).toNat)

namespace NumberText

def float (text : NumberText) (magnitude : Binary64) : Number :=
  .float (if text.negative then magnitude.neg else magnitude)

/-- The value of a number that ends at `stop` and whose exponent digits start at `exponentStart`. -/
def value (text : NumberText) (exponentStart stop : Nat) : Except Fault Number :=
  let (head, excess) := collectDigits 0 text.whole
  let fraction := text.fraction.getD []
  let (significand, unread) := collectDigits head fraction
  let shift : Int := excess.length - (fraction.length - unread.length : Nat)
  let scaled (exponent : Int) : Except Fault Number :=
    match scaleByTen? significand exponent with
    | some x => .ok (text.float x)
    | none => .error ⟨.numberOutOfRange, stop⟩
  match text.exponent with
  | some (negative, digits) =>
    match overflowAfter 0 0 digits with
    | some count =>
      if significand ≠ 0 ∧ ¬ negative then .error ⟨.numberOutOfRange, exponentStart + count⟩
      else .ok (text.float (.zero false))
    | none =>
      let exponent : Int := (collectDigits 0 digits).1
      scaled (if negative then shift - exponent else shift + exponent)
  | none =>
    if text.fraction.isSome ∨ excess ≠ [] then scaled shift
    else if ¬ text.negative then .ok (.int head)
    else if 0 < head ∧ head ≤ Word.signedEnd then .ok (.int (-head))
    else .ok (text.float (.ofInt head))

end NumberText

/-- A run of digits that must not be empty. -/
def scanDigits (offset : Nat) (text : List Char) : Except Flaw (List Char × List Char) :=
  match text.takeWhile Char.isDigit, text.dropWhile Char.isDigit with
  | [], [] => .error ⟨⟨.endInValue, offset⟩, ⟨.invalidNumber, offset⟩⟩
  | [], _ :: _ => .error (.same .invalidNumber (offset + 1))
  | digits, rest => .ok (digits, rest)

/-- The whole part has no leading zero but a lone one. -/
def scanWhole (offset : Nat) (text : List Char) : Except Flaw (List Char × List Char) := do
  let (digits, rest) ← scanDigits offset text
  if digits.head? = some '0' ∧ 1 < digits.length then throw (.same .invalidNumber (offset + 2))
  return (digits, rest)

def scanFraction (offset : Nat) (text : List Char) : Except Flaw (Option (List Char) × List Char) :=
  match text with
  | '.' :: rest => do
    let (digits, rest) ← scanDigits (offset + 1) rest
    return (some digits, rest)
  | rest => .ok (none, rest)

/-- Whether an exponent is negative, and how many characters its sign takes. -/
def scanSign : List Char → Bool × Nat × List Char
  | '-' :: rest => (true, 1, rest)
  | '+' :: rest => (false, 1, rest)
  | rest => (false, 0, rest)

/-- The sign and the digits of an exponent, and how many characters stand before its digits. -/
def scanExponent (offset : Nat) (text : List Char) :
    Except Flaw (Option (Bool × List Char) × Nat × List Char) :=
  match text with
  | [] => .ok (none, 0, [])
  | c :: rest =>
    if c = 'e' ∨ c = 'E' then do
      let (negative, width, rest) := scanSign rest
      let (digits, rest) ← scanDigits (offset + 1 + width) rest
      return (some (negative, digits), 1 + width, rest)
    else .ok (none, 0, c :: rest)

/-- Scans the number at the head of the text: its value, where it stops, and what follows. -/
def scanNumber (offset : Nat) (text : List Char) :
    Except Flaw (Except Fault Number × Nat × List Char) := do
  let (negative, unsigned) := match text with
    | '-' :: rest => (true, rest)
    | rest => (false, rest)
  let wholeStart := if negative then offset + 1 else offset
  let (whole, rest) ← scanWhole wholeStart unsigned
  let wholeStop := wholeStart + whole.length
  let (fraction, rest) ← scanFraction wholeStop rest
  let fractionStop := wholeStop + (fraction.map (·.length + 1)).getD 0
  let (exponent, width, rest) ← scanExponent fractionStop rest
  let exponentStart := fractionStop + width
  let stop := exponentStart + (exponent.map (·.2.length)).getD 0
  return (NumberText.value ⟨negative, whole, fraction, exponent⟩ exponentStart stop, stop, rest)

end DocModel.Json
