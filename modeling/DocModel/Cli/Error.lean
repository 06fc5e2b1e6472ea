import DocModel.Config
import DocModel.SchemaError
import DocModel.Violation

namespace DocModel.Cli

inductive Error.Code
  | config
  | io
  | definition
  | validation
deriving DecidableEq

def Error.Code.text : Error.Code → String
  | config => "MODELGEN_CLI_CONFIG_ERROR"
  | io => "MODELGEN_CLI_IO_ERROR"
  | definition => "MODELGEN_CLI_DEFINITION_ERROR"
  | validation => "MODELGEN_CLI_VALIDATION_FAILED"

/-- Why a document cannot be read from the standard input. -/
inductive InputFault
  | notUtf8
  | empty
  | malformed (message : String)
deriving DecidableEq

def InputFault.message : InputFault → String
  | notUtf8 => "stream did not contain valid UTF-8"
  | empty => "Empty input"
  | malformed message => s!"JSON error: {message}"

/-- Why a command fails. -/
inductive Error
  | config (fault : Config.Fault)
  | input (fault : InputFault)
  | definition (error : SchemaError)
  | validation (rejection : Rejection)
deriving DecidableEq

namespace Error

def code : Error → Code
  | config _ => .config
  | input _ => .io
  | definition _ => .definition
  | validation _ => .validation

def message : Error → String
  | config fault => fault.message
  | input fault => fault.message
  | definition error => error.display
  | validation rejection => rejection.display

def display (error : Error) : String := s!"{error.code.text}: {error.message}"

end Error

end DocModel.Cli
