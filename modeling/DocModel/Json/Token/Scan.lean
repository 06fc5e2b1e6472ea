import DocModel.Json.Token.Number
import DocModel.Json.Token.Quoted

namespace DocModel.Json

/-- The white space that may stand between tokens. -/
def isGap (c : Char) : Bool := c == ' ' || c == '\n' || c == '\t' || c == '\r'

/-- Scans the remaining letters of a word. -/
def scanWord (offset : Nat) : List Char → List Char → Except Flaw (Nat × List Char)
  | [], rest => .ok (offset, rest)
  | _ :: _, [] => .error (.same .endInValue offset)
  | expected :: word, c :: rest =>
    if c = expected then scanWord (offset + 1) word rest
    else .error (.same .expectedWord (offset + 1))

theorem scanDigits_rest {offset : Nat} {text digits rest : List Char}
    (h : scanDigits offset text = .ok (digits, rest)) : rest.length < text.length := by
  have split : text.takeWhile Char.isDigit ++ text.dropWhile Char.isDigit = text :=
    List.takeWhile_append_dropWhile
  unfold scanDigits at h
  split at h
  · cases h
  · cases h
  · next taken left notEmpty notNone =>
    cases h
    have : 0 < (text.takeWhile Char.isDigit).length := by
      cases empty : text.takeWhile Char.isDigit with
      | nil =>
        cases full : text.dropWhile Char.isDigit with
        | nil => exact (notEmpty empty full).elim
        | cons c rest => exact (notNone c rest empty full).elim
      | cons => simp
    calc (text.dropWhile Char.isDigit).length
        < (text.takeWhile Char.isDigit).length + (text.dropWhile Char.isDigit).length := by omega
      _ = text.length := by rw [← List.length_append, split]

theorem scanWhole_rest {offset : Nat} {text digits rest : List Char}
    (h : scanWhole offset text = .ok (digits, rest)) : rest.length < text.length := by
  unfold scanWhole at h
  cases scanned : scanDigits offset text with
  | error => simp [scanned, bind, Except.bind] at h
  | ok pair =>
    simp only [scanned, bind, Except.bind] at h
    split at h
    · cases h
    · cases h
      exact scanDigits_rest scanned

theorem scanFraction_rest {offset : Nat} {text rest : List Char} {fraction : Option (List Char)}
    (h : scanFraction offset text = .ok (fraction, rest)) : rest.length ≤ text.length := by
  unfold scanFraction at h
  split at h
  · next tail =>
    cases scanned : scanDigits (offset + 1) tail with
    | error => simp [scanned, bind, Except.bind] at h
    | ok pair =>
      simp only [scanned, bind, Except.bind] at h
      cases h
      have := scanDigits_rest scanned
      simp only [List.length_cons]
      omega
  · cases h
    exact Nat.le_refl _

theorem scanSign_rest (text : List Char) : (scanSign text).2.2.length ≤ text.length := by
  unfold scanSign
  split <;> simp

theorem scanExponent_rest {offset width : Nat} {text rest : List Char}
    {exponent : Option (Bool × List Char)}
    (h : scanExponent offset text = .ok (exponent, width, rest)) : rest.length ≤ text.length := by
  cases text with
  | nil => cases h; exact Nat.le_refl _
  | cons c tail =>
    simp only [scanExponent] at h
    split at h
    · cases scanned : scanDigits (offset + 1 + (scanSign tail).2.1) (scanSign tail).2.2 with
      | error => simp [scanned, bind, Except.bind] at h
      | ok pair =>
        simp only [scanned, bind, Except.bind] at h
        cases h
        have := scanDigits_rest scanned
        have := scanSign_rest tail
        simp only [List.length_cons]
        omega
    · cases h
      exact Nat.le_refl _

theorem scanNumber_rest {offset stop : Nat} {text rest : List Char} {value : Except Fault Number}
    (h : scanNumber offset text = .ok (value, stop, rest)) : rest.length < text.length := by
  unfold scanNumber at h
  split at h
  next negative unsigned signed =>
  have unsigned_le : unsigned.length ≤ text.length := by
    split at signed <;> cases signed <;> simp
  cases whole : scanWhole (if negative then offset + 1 else offset) unsigned with
  | error => simp [whole, bind, Except.bind] at h
  | ok pair =>
    obtain ⟨digits, afterWhole⟩ := pair
    simp only [whole, bind, Except.bind] at h
    split at h
    · cases h
    · next afterFraction fraction =>
      split at h
      · cases h
      · next exponent =>
        cases h
        have := scanWhole_rest whole
        have := scanFraction_rest fraction
        have := scanExponent_rest exponent
        omega

theorem scanWord_rest {offset stop : Nat} {word text rest : List Char}
    (h : scanWord offset word text = .ok (stop, rest)) : rest.length ≤ text.length := by
  induction word generalizing offset text with
  | nil => cases h; exact Nat.le_refl _
  | cons expected word ih =>
    cases text with
    | nil => cases h
    | cons c tail =>
      simp only [scanWord] at h
      split at h
      · have := ih h
        simp only [List.length_cons]
        omega
      · cases h

theorem Quoted.breaks_ne_closed {decoded : Except Fault Decoding} {read skip : Fault}
    {value : Except Fault String} {stop : Nat} {rest : List Char} :
    Quoted.breaks decoded read skip ≠ .closed value stop rest := by
  cases decoded <;> nofun

theorem scanQuoted_rest {decoded : Except Fault Decoding} {offset stop : Nat}
    {text rest : List Char} {value : Except Fault String}
    (h : scanQuoted decoded offset text = .closed value stop rest) : rest.length ≤ text.length := by
  fun_induction scanQuoted decoded offset text with
  | case1 | case3 | case5 | case6 | case8 | case9 => exact (Quoted.breaks_ne_closed h).elim
  | case2 => cases h; simp
  | case4 | case7 | case10 =>
    next shorter =>
    have := shorter h
    simp only [List.length_cons]
    omega

/-- The tokens of a text from an offset on, up to the first that is broken. -/
def scan (offset : Nat) (text : List Char) : List Token :=
  match text with
  | [] => []
  | c :: rest =>
    let single (lexeme : Lexeme) : List Token :=
      ⟨offset, offset + 1, lexeme⟩ :: scan (offset + 1) rest
    let word (letters : String) (lexeme : Lexeme) : List Token :=
      match _h : scanWord (offset + 1) letters.toList rest with
      | .ok (stop, rest) => ⟨offset, stop, lexeme⟩ :: scan stop rest
      | .error flaw => [⟨offset, offset, .broken flaw⟩]
    match c with
    | '[' => single .openList
    | ']' => single .closeList
    | '{' => single .openObject
    | '}' => single .closeObject
    | ',' => single .comma
    | ':' => single .colon
    | 'n' => word "ull" .null
    | 't' => word "rue" (.bool true)
    | 'f' => word "alse" (.bool false)
    | '"' =>
      match _h : scanQuoted (.ok .start) (offset + 1) rest with
      | .closed value stop rest => ⟨offset, stop, .string value⟩ :: scan stop rest
      | .broken flaw => [⟨offset, offset, .brokenString flaw⟩]
    | c =>
      if isGap c then scan (offset + 1) rest
      else if c = '-' ∨ c.isDigit then
        match _h : scanNumber offset (c :: rest) with
        | .ok (value, stop, rest) => ⟨offset, stop, .number value⟩ :: scan stop rest
        | .error flaw => [⟨offset, offset, .broken flaw⟩]
      else [⟨offset, offset, .broken (.same .expectedValue (offset + 1))⟩]
termination_by text.length
decreasing_by
  · simp
  · have := scanWord_rest _h
    simp only [List.length_cons]
    omega
  · have := scanQuoted_rest _h
    simp only [List.length_cons]
    omega
  · simp
  · have := scanNumber_rest _h
    omega

end DocModel.Json
