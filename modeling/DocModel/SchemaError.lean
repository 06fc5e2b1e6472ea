import DocModel.Binary64.Decimal
import DocModel.Choice
import DocModel.ErrorCode
import DocModel.Json.Mismatch

namespace DocModel

/-- What is wrong with a definition document as a whole. -/
inductive DocumentFault
  | notAnObject
  | nameNotString
  | sectionNotObject (key : String)
  | alreadyRegistered
  | unsafeName
  | unreadable (path reason : String)
  | invalidJson (path reason : String)
  | stated (detail : String)
deriving DecidableEq

def DocumentFault.message : DocumentFault → String
  | notAnObject => "definition document must be an object"
  | nameNotString => "'name' must be a string"
  | sectionNotObject key => s!"'{key}' must be an object"
  | alreadyRegistered => "definition is already registered"
  | unsafeName => "type name must not contain path separators or '..'"
  | unreadable path reason => s!"Failed to read '{path}': {reason}"
  | invalidJson path reason => s!"Invalid JSON in '{path}': {reason}"
  | stated detail => detail

/-- What is wrong with one field of a definition. -/
inductive FieldFault
  | repeated
  | notAnObject
  | illTyped (mismatch : Json.Mismatch)
  | keyTooLong (length : Nat)
  | missingType
  | choices (fault : Choice.Fault)
  | emptyRange (min max : Binary64)
  | missingModel
  | keyNotAllowed
  | stated (detail : String)
deriving DecidableEq

def FieldFault.message : FieldFault → String
  | repeated => "field declared more than once across properties and relations"
  | notAnObject => "field rules must be an object"
  | illTyped mismatch => mismatch.message
  | keyTooLong length => s!"invalid length {length}, expected fewer elements in array"
  | missingType => "missing 'type'"
  | choices fault => fault.message
  | emptyRange min max =>
    s!"min {min.limitText} is greater than max {max.limitText}"
  | missingModel => "relation needs a 'model'"
  | keyNotAllowed => "'key' is only allowed on embedsManyAsObject relations"
  | stated detail => detail

/-- Why a definition cannot be loaded or compiled. -/
inductive SchemaError
  | definitionNotFound (name : String)
  | malformedDefinition (name : String) (fault : DocumentFault)
  | malformedField (name field : String) (fault : FieldFault)
  | unknownFieldType (name field declared : String)
  | cyclicDefinition (chain : List String) (repeated : String)
deriving DecidableEq

namespace SchemaError

def code : SchemaError → ErrorCode
  | definitionNotFound _ => .definitionNotFound
  | malformedDefinition _ _ | malformedField _ _ _ => .malformedDefinition
  | unknownFieldType _ _ _ => .unknownFieldType
  | cyclicDefinition _ _ => .cyclicDefinition

def message : SchemaError → String
  | definitionNotFound name => s!"Can't find definition '{name}' in any search root"
  | malformedDefinition name fault => s!"Malformed definition '{name}': {fault.message}"
  | malformedField name field fault =>
    s!"Malformed definition '{name}', field '{field}': {fault.message}"
  | unknownFieldType name field declared =>
    s!"Definition '{name}', field '{field}': unknown type '{declared}'"
  | cyclicDefinition chain repeated =>
    s!"Definition '{repeated}' embeds itself: " ++ chainText chain ++ repeated
where
  chainText (chain : List String) : String :=
    let path := " -> ".intercalate chain
    if path.isEmpty then "" else path ++ " -> "

/-- The document type that the error is about. -/
def typeName : SchemaError → String
  | definitionNotFound name | malformedDefinition name _ | malformedField name _ _
  | unknownFieldType name _ _ | cyclicDefinition _ name => name

def field? : SchemaError → Option String
  | malformedField _ field _ | unknownFieldType _ field _ => some field
  | _ => none

def declared? : SchemaError → Option String
  | unknownFieldType _ _ declared => some declared
  | _ => none

def display (error : SchemaError) : String := error.code.headed error.message

end SchemaError

end DocModel
