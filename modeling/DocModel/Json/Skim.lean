import DocModel.Json.Token

namespace DocModel.Json

inductive Bracket
  | list
  | object
deriving DecidableEq

namespace Bracket

def isClosedBy : Bracket → Lexeme → Bool
  | list, .closeList | object, .closeObject => true
  | _, _ => false

def unfinished : Bracket → Malformation
  | list => .endInList
  | object => .endInObject

def expectedEnd : Bracket → Malformation
  | list => .expectedListEnd
  | object => .expectedObjectEnd

end Bracket

/-- Where one is in a value that is passed over without being read; it may nest without limit. -/
inductive Skim
  | due (brackets : List Bracket)
  | opened (bracket : Bracket) (brackets : List Bracket)
  | key (brackets : List Bracket)
  | colon (brackets : List Bracket)
  | settled (bracket : Bracket) (brackets : List Bracket)
  | finished

namespace Skim

/-- A value within the brackets is over. -/
def settle : List Bracket → Skim
  | [] => finished
  | bracket :: brackets => settled bracket brackets

def begin (token : Token) (brackets : List Bracket) : Except Fault Skim :=
  match token.lexeme with
  | .null | .bool _ | .number _ | .string _ => .ok (settle brackets)
  | .openList => .ok (opened .list brackets)
  | .openObject => .ok (opened .object brackets)
  | .broken flaw | .brokenString flaw => .error flaw.skip
  | .closeList | .closeObject | .comma | .colon => .error (token.unexpected .expectedValue)

def beginKey (token : Token) (brackets : List Bracket) : Except Fault Skim :=
  match token.lexeme with
  | .string _ => .ok (colon brackets)
  | .brokenString flaw => .error flaw.skip
  | _ => .error (token.unexpected .keyNotString)

/-- The next item of a list or member of an object. -/
def beginNext (token : Token) (bracket : Bracket) (brackets : List Bracket) : Except Fault Skim :=
  match bracket with
  | .list => begin token (.list :: brackets)
  | .object => beginKey token (.object :: brackets)

def step (skim : Skim) (token : Token) : Except Fault Skim :=
  match skim with
  | due brackets => begin token brackets
  | opened bracket brackets =>
    if bracket.isClosedBy token.lexeme then .ok (settle brackets)
    else beginNext token bracket brackets
  | key brackets => beginKey token brackets
  | colon brackets =>
    match token.lexeme with
    | .colon => .ok (due brackets)
    | _ => .error (token.unexpected .expectedColon)
  | settled bracket brackets =>
    if bracket.isClosedBy token.lexeme then .ok (settle brackets)
    else
      match token.lexeme, bracket with
      | .comma, .list => .ok (due (.list :: brackets))
      | .comma, .object => .ok (key (.object :: brackets))
      | _, bracket => .error (token.unexpected bracket.expectedEnd)
  | finished => .error (token.unexpected .trailingCharacters)

/-- What is wrong when the text ends within the value. -/
def unfinished : Skim → Malformation
  | opened bracket _ | settled bracket _ => bracket.unfinished
  | key _ | colon _ => .endInObject
  | due _ | finished => .endInValue

end Skim

end DocModel.Json
