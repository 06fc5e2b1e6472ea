import DocModel.Binary64.Decimal
import DocModel.Json

namespace DocModel.Json

/-- Floats are positional from `10 ^ -5` up to `10 ^ 16`, and a whole one keeps a zero after the
point; a half goes to the even digit. -/
def floatLayout : Binary64.Layout :=
  ⟨.toEven, fun scale => decide (-5 ≤ scale ∧ scale < 16), ".0"⟩

def Number.render : Number → String
  | .int n => toString n
  | .float x => x.text floatLayout

def hexDigit (n : Nat) : Char := (Nat.toDigits 16 n).headD '0'

/-- The quote, the backslash and the characters below a space are escaped; all others stand as
they are. -/
def escape (c : Char) : List Char :=
  match c with
  | '"' => ['\\', '"']
  | '\\' => ['\\', '\\']
  | '\x08' => ['\\', 'b']
  | '\x0c' => ['\\', 'f']
  | '\n' => ['\\', 'n']
  | '\r' => ['\\', 'r']
  | '\t' => ['\\', 't']
  | c =>
    if c < ' ' then ['\\', 'u', '0', '0', hexDigit (c.toNat / 16), hexDigit (c.toNat % 16)]
    else [c]

def quote (text : String) : String :=
  String.ofList ('"' :: text.toList.flatMap escape ++ ['"'])

mutual

/-- The document without any space, members in their order. -/
def render (value : Json) : String :=
  match value with
  | .null => "null"
  | .bool true => "true"
  | .bool false => "false"
  | .num n => n.render
  | .str s => quote s
  | .arr items => "[" ++ ",".intercalate (renderItems items) ++ "]"
  | .obj members => "\x7b" ++ ",".intercalate (renderMembers members) ++ "\x7d"
termination_by structural value

def renderItems (items : List Json) : List String :=
  match items with
  | [] => []
  | item :: items => render item :: renderItems items
termination_by structural items

def renderMembers (members : Members) : List String :=
  match members with
  | [] => []
  | (key, value) :: members => (quote key ++ ":" ++ render value) :: renderMembers members
termination_by structural members

end

end DocModel.Json
