import DocModel.Text

namespace DocModel.Temporal

open Text (dropBlanks)

def digitsValue (digits : List Char) : Nat :=
  digits.foldl (fun value c => value * 10 + (c.toNat - '0'.toNat)) 0

/-- A number of at least one digit and at most `most`, and what follows it. -/
def number? (most : Nat) (text : List Char) : Option (Nat × List Char) :=
  let digits := (text.take most).takeWhile Char.isDigit
  if digits.isEmpty then none else some (digitsValue digits, text.drop digits.length)

/-- A number that white space may precede. -/
def spacedNumber? (most : Nat) (text : List Char) : Option (Nat × List Char) :=
  number? most (dropBlanks text)

/-- A number of exactly `count` digits. -/
def fixedNumber? (count : Nat) (text : List Char) : Option (Nat × List Char) :=
  let digits := text.take count
  if digits.length = count ∧ digits.all Char.isDigit then some (digitsValue digits, text.drop count)
  else none

def literal? (c : Char) : List Char → Option (List Char)
  | [] => none
  | d :: rest => if d = c then some rest else none

/-- A year has at most four digits unless it is signed. -/
def year? (text : List Char) : Option (Int × List Char) :=
  match dropBlanks text with
  | '-' :: rest => (number? rest.length rest).map fun (n, rest) => (-(n : Int), rest)
  | '+' :: rest => (number? rest.length rest).map fun (n, rest) => ((n : Int), rest)
  | rest => (number? 4 rest).map fun (n, rest) => ((n : Int), rest)

def isLeapYear (year : Int) : Bool := year % 4 == 0 && (year % 100 != 0 || year % 400 == 0)

def daysInMonth (year : Int) (month : Nat) : Nat :=
  match month with
  | 2 => if isLeapYear year then 29 else 28
  | 4 | 6 | 9 | 11 => 30
  | 1 | 3 | 5 | 7 | 8 | 10 | 12 => 31
  | _ => 0

/-- The day exists in the proleptic Gregorian calendar, within the years that are represented. -/
def isCalendarDay (year : Int) (month day : Nat) : Bool :=
  decide (-262143 ≤ year ∧ year ≤ 262142 ∧ 1 ≤ day ∧ day ≤ daysInMonth year month)

/-- A second may be the leap second of any minute. -/
def isTimeOfDay (hour minute second : Nat) : Bool :=
  decide (hour < 24 ∧ minute < 60 ∧ second ≤ 60)

/-- A fraction of a second: a point and at least one digit, or nothing. -/
def afterFraction? : List Char → Option (List Char)
  | '.' :: rest =>
    let left := rest.dropWhile Char.isDigit
    if left.length < rest.length then some left else none
  | text => some text

/-- A date `year-month-day`. -/
def isDate (text : List Char) : Bool :=
  ((do
    let (year, rest) ← year? text
    let (month, rest) ← spacedNumber? 2 (← literal? '-' rest)
    let (day, rest) ← spacedNumber? 2 (← literal? '-' rest)
    return rest.isEmpty && isCalendarDay year month day) : Option Bool).getD false

/-- A time `hour:minute:second` with an optional fraction. -/
def isFullTime (text : List Char) : Bool :=
  ((do
    let (hour, rest) ← spacedNumber? 2 text
    let (minute, rest) ← spacedNumber? 2 (← literal? ':' rest)
    let (second, rest) ← spacedNumber? 2 (← literal? ':' rest)
    let rest ← afterFraction? rest
    return rest.isEmpty && isTimeOfDay hour minute second) : Option Bool).getD false

/-- A time `hour:minute`. -/
def isShortTime (text : List Char) : Bool :=
  ((do
    let (hour, rest) ← spacedNumber? 2 text
    let (minute, rest) ← spacedNumber? 2 (← literal? ':' rest)
    return rest.isEmpty && isTimeOfDay hour minute 0) : Option Bool).getD false

def isTime (text : List Char) : Bool := isFullTime text || isShortTime text

/-- The distance from universal time: `Z`, or a signed `hour:minute` of less than a day. -/
def isOffset : List Char → Bool
  | ['Z'] | ['z'] => true
  | sign :: text =>
    (sign == '+' || sign == '-' || sign == '−') &&
      ((do
        let (hour, rest) ← fixedNumber? 2 text
        let (minute, rest) ← fixedNumber? 2 (← literal? ':' rest)
        return rest.isEmpty && decide (hour < 24 ∧ minute < 60)) : Option Bool).getD false
  | [] => false

/-- A point in time in the strict internet format. -/
def isDateTime (text : List Char) : Bool :=
  ((do
    let (year, rest) ← fixedNumber? 4 text
    let (month, rest) ← fixedNumber? 2 (← literal? '-' rest)
    let (day, rest) ← fixedNumber? 2 (← literal? '-' rest)
    let separator ← rest.head?
    guard (separator == 'T' || separator == 't' || separator == ' ')
    let (hour, rest) ← fixedNumber? 2 rest.tail
    let (minute, rest) ← fixedNumber? 2 (← literal? ':' rest)
    let (second, rest) ← fixedNumber? 2 (← literal? ':' rest)
    return isCalendarDay year month day && isTimeOfDay hour minute second &&
      isOffset (← afterFraction? rest)) : Option Bool).getD false

end DocModel.Temporal
