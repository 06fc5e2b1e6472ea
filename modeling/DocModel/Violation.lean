import DocModel.Binary64.Decimal
import DocModel.ErrorCode
import DocModel.Json.Printer

namespace DocModel

/-- One step from a value to a value inside it. -/
inductive Step
  | key (name : String)
  | index (position : Nat)
deriving DecidableEq

/-- The steps from the root of a document, outermost first. -/
abbrev Location := List Step

namespace Location

/-- Adds one step to a written path; a key on the empty path stands alone. -/
def extend (path : String) : Step → String
  | .key name => if path.isEmpty then name else s!"{path}.{name}"
  | .index i => s!"{path}[{i}]"

def render (location : Location) : String := location.foldl extend ""

/-- The location in whose place the root of a document is named. -/
def root : Location := [.key "$root"]

end Location

/-- What follows the last point of a written path, up to its first bracket. -/
def leafName (path : String) : String :=
  let leaf := (path.toList.reverse.takeWhile (· != '.')).reverse
  String.ofList (leaf.takeWhile (· != '['))

/-- What is wrong with a value. -/
inductive Problem
  | missingKey
  | wrongKey
  | mismatch (expected actual : String)
  | belowMin (value : Json) (limit : Binary64)
  | aboveMax (value : Json) (limit : Binary64)
  | tooShort (limit : Binary64)
  | tooLong (limit : Binary64)
  | notAChoice (allowed : List Json)
  | incompletePoint
  | coordinate (name actual : String)
  | pointText (actual : String)
  | noOracle (model : String)
  | oracleFailed (model reason : String)
  | invalidDocument
  | inEntry (key : String) (problem : Problem)
  | stated (message : String)
deriving DecidableEq

/-- The message about a problem of the value that `leaf` names. -/
def Problem.message (leaf : String) : Problem → String
  | missingKey => s!"Missing key '{leaf}'"
  | wrongKey => s!"Wrong key '{leaf}'"
  | mismatch expected actual => s!"Key '{leaf}' error: {actual} should be instance of '{expected}'"
  | belowMin value limit =>
    s!"Key '{leaf}' error: {value.render} is less than min {limit.limitText}"
  | aboveMax value limit =>
    s!"Key '{leaf}' error: {value.render} is greater than max {limit.limitText}"
  | tooShort limit =>
    s!"Field '{leaf}' value is too small. Required {limit.limitText} chars"
  | tooLong limit =>
    s!"Field '{leaf}' value is too long. Allowed max {limit.limitText} chars"
  | notAChoice allowed => s!"Key '{leaf}' value not in choices: {(Json.arr allowed).render}"
  | incompletePoint =>
    "Please provide 'lat' and 'lng' value. Ex.: \x7b'lat': 0.3, 'lng': 32.122\x7d"
  | coordinate name actual => s!"'{name}' must be a number, got {actual}"
  | pointText actual => s!"'text' must be a string, got {actual}"
  | noOracle model => s!"Can't verify '{model}' ids: no entity store configured"
  | oracleFailed model reason => s!"Can't verify '{model}' ids: {reason}"
  | invalidDocument => "invalid document"
  | inEntry key problem => s!"Invalid key '{key}': {problem.message leaf}"
  | stated message => message

/-- A problem and where in the document it is. -/
structure Violation where
  location : Location
  problem : Problem
deriving DecidableEq

namespace Violation

def path (violation : Violation) : String := violation.location.render

def message (violation : Violation) : String := violation.problem.message (leafName violation.path)

def display (violation : Violation) : String :=
  if violation.path.isEmpty then violation.message
  else s!"field '{violation.path}': {violation.message}"

/-- Says of a violation in an entry of a map which entry it is. -/
def inEntry (key : String) (violation : Violation) : Violation :=
  { violation with problem := .inEntry key violation.problem }

end Violation

/-- The refusal of a document: at least one violation. -/
structure Rejection where
  typeName : String
  first : Violation
  rest : List Violation
deriving DecidableEq

namespace Rejection

def ofViolations? (typeName : String) : List Violation → Option Rejection
  | [] => none
  | first :: rest => some ⟨typeName, first, rest⟩

def violations (rejection : Rejection) : List Violation := rejection.first :: rejection.rest

def code : ErrorCode := .validationFailed

def display (rejection : Rejection) : String :=
  code.headed (s!"'{rejection.typeName}' rejected: " ++
    "; ".intercalate (rejection.violations.map Violation.display))

end Rejection

end DocModel
