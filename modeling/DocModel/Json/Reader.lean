import DocModel.Json.Token.Scan

namespace DocModel.Json

/-- An open list or object: what it holds so far, the items last first. -/
inductive Frame
  | list (items : List Json)
  | object (members : Members) (key : String)

/-- What the reader waits for, inside the open lists and objects, innermost first. -/
inductive Reading
  | due (frames : List Frame)
  | item (isFirst : Bool) (items : List Json) (frames : List Frame)
  | member (isFirst : Bool) (members : Members) (frames : List Frame)
  | colon (members : Members) (key : String) (frames : List Frame)
  | listEnd (items : List Json) (frames : List Frame)
  | objectEnd (members : Members) (frames : List Frame)
  | finished (value : Json)

namespace Reading

/-- Lists and objects nest at most this deep. -/
def depthLimit : Nat := 127

/-- Puts a finished value into the innermost open list or object; a repeated key keeps its first
place and takes the last value. -/
def settle (value : Json) : List Frame → Reading
  | [] => finished value
  | .list items :: frames => listEnd (value :: items) frames
  | .object members key :: frames => objectEnd (members.insert key value) frames

def opened (token : Token) (frames : List Frame) (next : Reading) : Except Fault Reading :=
  if frames.length < depthLimit then .ok next else .error (token.unexpected .tooDeep)

def begin (token : Token) (frames : List Frame) : Except Fault Reading :=
  match token.lexeme with
  | .null => .ok (settle .null frames)
  | .bool b => .ok (settle (.bool b) frames)
  | .number value => value.map fun n => settle (.num n) frames
  | .string value => value.map fun s => settle (.str s) frames
  | .openList => opened token frames (item true [] frames)
  | .openObject => opened token frames (member true [] frames)
  | .broken flaw | .brokenString flaw => .error flaw.read
  | .closeList | .closeObject | .comma | .colon => .error (token.unexpected .expectedValue)

def step (reading : Reading) (token : Token) : Except Fault Reading :=
  match reading, token.lexeme with
  | due frames, _ => begin token frames
  | item isFirst items frames, .closeList =>
    if isFirst then .ok (settle (.arr items.reverse) frames)
    else .error (token.unexpected .trailingComma)
  | item _ items frames, _ => begin token (.list items :: frames)
  | member isFirst members frames, .closeObject =>
    if isFirst then .ok (settle (.obj members) frames)
    else .error (token.unexpected .trailingComma)
  | member _ members frames, .string key => key.map fun key => colon members key frames
  | member _ _ _, .brokenString flaw => .error flaw.read
  | member _ _ _, _ => .error (token.unexpected .keyNotString)
  | colon members key frames, .colon => .ok (due (.object members key :: frames))
  | colon _ _ _, _ => .error (token.unexpected .expectedColon)
  | listEnd items frames, .comma => .ok (item false items frames)
  | listEnd items frames, .closeList => .ok (settle (.arr items.reverse) frames)
  | listEnd _ _, _ => .error (token.unexpected .expectedListEnd)
  | objectEnd members frames, .comma => .ok (member false members frames)
  | objectEnd members frames, .closeObject => .ok (settle (.obj members) frames)
  | objectEnd _ _, _ => .error (token.unexpected .expectedObjectEnd)
  | finished _, _ => .error (token.unexpected .trailingCharacters)

/-- The value read once the text ends, at its last offset. -/
def finish (reading : Reading) (offset : Nat) : Except Fault Json :=
  match reading with
  | finished value => .ok value
  | due _ | item false _ _ | member false _ _ => .error ⟨.endInValue, offset⟩
  | item true _ _ | listEnd _ _ => .error ⟨.endInList, offset⟩
  | member true _ _ | colon _ _ _ | objectEnd _ _ => .error ⟨.endInObject, offset⟩

end Reading

def read (text : List Char) : Except Fault Json := do
  let reading ← (scan 0 text).foldlM Reading.step (.due [])
  reading.finish (Text.byteLength text)

/-- Reads a document; the error is the message that tells the fault and its place. -/
def parse (text : String) : Except String Json :=
  (read text.toList).mapError (Text.Located.message Malformation.text text.toList)

end DocModel.Json
