import DocModel.Json.Token

namespace DocModel.Json

def hexDigit? (c : Char) : Option Nat :=
  if c.isDigit then some (c.toNat - '0'.toNat)
  else if 'a' ≤ c ∧ c ≤ 'f' then some (c.toNat - 'a'.toNat + 10)
  else if 'A' ≤ c ∧ c ≤ 'F' then some (c.toNat - 'A'.toNat + 10)
  else none

def hexValue? (digits : List Char) : Option Nat :=
  digits.foldlM (fun value c => (hexDigit? c).map (value * 16 + ·)) 0

/-- The characters with an escape of one letter. -/
def escapeOf? : Char → Option Char
  | '"' => some '"'
  | '\\' => some '\\'
  | '/' => some '/'
  | 'b' => some '\x08'
  | 'f' => some '\x0c'
  | 'n' => some '\n'
  | 'r' => some '\r'
  | 't' => some '\t'
  | _ => none

/-- The characters read so far, last first, and a leading surrogate whose other half is due. -/
structure Decoding where
  read : List Char
  lead : Option Nat

namespace Decoding

def start : Decoding := ⟨[], none⟩

def text (d : Decoding) : String := String.ofList d.read.reverse

/-- Nothing but an escape may follow a leading surrogate. -/
def settled (d : Decoding) (offset : Nat) : Except Fault Decoding :=
  if d.lead.isSome then .error ⟨.endOfEscape, offset⟩ else .ok d

def push (d : Decoding) (c : Char) : Decoding := ⟨c :: d.read, none⟩

/-- Adds a code unit written in hexadecimal; the halves of a surrogate pair make one character. -/
def pushUnit (d : Decoding) (unit offset : Nat) : Except Fault Decoding :=
  let isLead := 0xD800 ≤ unit ∧ unit < 0xDC00
  let isTrail := 0xDC00 ≤ unit ∧ unit < 0xE000
  match d.lead with
  | some lead =>
    if isTrail then .ok (d.push (Char.ofNat ((lead - 0xD800) * 0x400 + (unit - 0xDC00) + 0x10000)))
    else .error ⟨.loneSurrogate, offset⟩
  | none =>
    if isTrail then .error ⟨.loneSurrogate, offset⟩
    else if isLead then .ok { d with lead := some unit }
    else .ok (d.push (Char.ofNat unit))

end Decoding

/-- A string either closes, and has a value or a fault in it, or it breaks off. -/
inductive Quoted
  | closed (value : Except Fault String) (stop : Nat) (rest : List Char)
  | broken (flaw : Flaw)

/-- The break of a string: an earlier fault of its characters comes first when it is read. -/
def Quoted.breaks (decoded : Except Fault Decoding) (read skip : Fault) : Quoted :=
  match decoded with
  | .ok _ => .broken ⟨read, skip⟩
  | .error earlier => .broken ⟨earlier, skip⟩

/-- Scans a string from after its opening quote. -/
def scanQuoted (decoded : Except Fault Decoding) (offset : Nat) : List Char → Quoted
  | [] => .breaks decoded ⟨.endInString, offset⟩ ⟨.endInString, offset⟩
  | '"' :: rest => .closed (do return (← (← decoded).settled (offset + 1)).text) (offset + 1) rest
  | ['\\'] => .breaks decoded ⟨.endInString, offset + 1⟩ ⟨.endInString, offset + 1⟩
  | '\\' :: 'u' :: a :: b :: c :: d :: rest =>
    match hexValue? [a, b, c, d] with
    | some unit =>
      scanQuoted (do (← decoded).pushUnit unit (offset + 6)) (offset + 6) rest
    | none => .breaks decoded ⟨.invalidEscape, offset + 6⟩ ⟨.invalidEscape, offset + 6⟩
  | '\\' :: 'u' :: rest =>
    let left := Text.byteLength rest
    let fault : Fault :=
      if 4 ≤ left then ⟨.invalidEscape, offset + 6⟩ else ⟨.endInString, offset + 2 + left⟩
    .breaks decoded fault fault
  | '\\' :: c :: rest =>
    let decoded := do (← decoded).settled (offset + 2)
    match escapeOf? c with
    | some c => scanQuoted (decoded.map (·.push c)) (offset + 2) rest
    | none => .breaks decoded ⟨.invalidEscape, offset + 2⟩ ⟨.invalidEscape, offset + 2⟩
  | c :: rest =>
    let decoded := do (← decoded).settled (offset + 1)
    if c < ' ' then .breaks decoded ⟨.controlCharacter, offset + 1⟩ ⟨.controlCharacter, offset⟩
    else scanQuoted (decoded.map (·.push c)) (offset + c.utf8Size) rest

end DocModel.Json
