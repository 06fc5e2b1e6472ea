namespace DocModel

/-- A rejected input can be mended by its sender; a fatal error ends the construction of a
validator. -/
inductive Gravity
  | reject
  | fatal
deriving DecidableEq

def Gravity.text : Gravity → String
  | reject => "REJECT"
  | fatal => "FATAL"

inductive ErrorCode
  | definitionNotFound
  | malformedDefinition
  | unknownFieldType
  | cyclicDefinition
  | validationFailed
deriving DecidableEq

namespace ErrorCode

def text : ErrorCode → String
  | definitionNotFound => "MODELGEN_DEFINITION_NOT_FOUND"
  | malformedDefinition => "MODELGEN_MALFORMED_DEFINITION"
  | unknownFieldType => "MODELGEN_UNKNOWN_FIELD_TYPE"
  | cyclicDefinition => "MODELGEN_CYCLIC_DEFINITION"
  | validationFailed => "MODELGEN_VALIDATION_FAILED"

def gravity : ErrorCode → Gravity
  | validationFailed => .reject
  | _ => .fatal

/-- A message under the gravity and the code of its error. -/
def headed (code : ErrorCode) (message : String) : String :=
  s!"[{code.gravity.text}] {code.text}: {message}"

end ErrorCode

end DocModel
