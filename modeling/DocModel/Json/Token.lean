import DocModel.Json
import DocModel.Text

namespace DocModel.Json

/-- What can be wrong with a JSON text. -/
inductive Malformation
  | endInValue
  | endInList
  | endInObject
  | endInString
  | expectedValue
  | expectedWord
  | keyNotString
  | trailingComma
  | expectedColon
  | expectedListEnd
  | expectedObjectEnd
  | trailingCharacters
  | invalidNumber
  | numberOutOfRange
  | invalidEscape
  | controlCharacter
  | loneSurrogate
  | endOfEscape
  | tooDeep
deriving DecidableEq

def Malformation.text : Malformation → String
  | endInValue => "EOF while parsing a value"
  | endInList => "EOF while parsing a list"
  | endInObject => "EOF while parsing an object"
  | endInString => "EOF while parsing a string"
  | expectedValue => "expected value"
  | expectedWord => "expected ident"
  | keyNotString => "key must be a string"
  | trailingComma => "trailing comma"
  | expectedColon => "expected `:`"
  | expectedListEnd => "expected `,` or `]`"
  | expectedObjectEnd => "expected `,` or `\x7d`"
  | trailingCharacters => "trailing characters"
  | invalidNumber => "invalid number"
  | numberOutOfRange => "number out of range"
  | invalidEscape => "invalid escape"
  | controlCharacter => "control character (\\u0000-\\u001F) found while parsing a string"
  | loneSurrogate => "lone leading surrogate in hex escape"
  | endOfEscape => "unexpected end of hex escape"
  | tooDeep => "recursion limit exceeded"

abbrev Fault := Text.Located Malformation

/-- The fault of an ill-formed scalar when it is read, and when it is merely passed over. -/
structure Flaw where
  read : Fault
  skip : Fault
deriving DecidableEq

def Flaw.same (problem : Malformation) (offset : Nat) : Flaw :=
  ⟨⟨problem, offset⟩, ⟨problem, offset⟩⟩

/-- A well-formed scalar can still have no value: a number out of range, a string of half a
character. -/
inductive Lexeme
  | openList
  | closeList
  | openObject
  | closeObject
  | comma
  | colon
  | null
  | bool (value : Bool)
  | number (value : Except Fault Number)
  | string (value : Except Fault String)
  | brokenString (flaw : Flaw)
  | broken (flaw : Flaw)

/-- A lexeme between two byte offsets of the text. -/
structure Token where
  start : Nat
  stop : Nat
  lexeme : Lexeme

/-- The fault of an unexpected token, which is placed just after its first byte. -/
def Token.unexpected (token : Token) (problem : Malformation) : Fault := ⟨problem, token.start + 1⟩

end DocModel.Json
