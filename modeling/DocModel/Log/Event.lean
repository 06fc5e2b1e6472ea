import DocModel.Log.Record

namespace DocModel.Log

/-- The events of a document's way from definition to validated document; each has its own
severity. -/
inductive Event
  | configLoaded
  | definitionLoaded
  | definitionNotFound
  | validatorCompiled
  | validatorCacheHit
  | documentValidated
  | documentRejected
  | cleanupApplied
  | oracleQueried
  | oracleFailed
deriving DecidableEq

namespace Event

def all : List Event :=
  [configLoaded, definitionLoaded, definitionNotFound, validatorCompiled, validatorCacheHit,
    documentValidated, documentRejected, cleanupApplied, oracleQueried, oracleFailed]

def text : Event → String
  | configLoaded => "CONFIG_LOADED"
  | definitionLoaded => "DEFINITION_LOADED"
  | definitionNotFound => "DEFINITION_NOT_FOUND"
  | validatorCompiled => "VALIDATOR_COMPILED"
  | validatorCacheHit => "VALIDATOR_CACHE_HIT"
  | documentValidated => "DOCUMENT_VALIDATED"
  | documentRejected => "DOCUMENT_REJECTED"
  | cleanupApplied => "CLEANUP_APPLIED"
  | oracleQueried => "ORACLE_QUERIED"
  | oracleFailed => "ORACLE_FAILED"

def ofText? (text : String) : Option Event := all.find? (·.text == text)

def severity : Event → Severity
  | documentValidated | validatorCacheHit | oracleQueried => .trace
  | definitionNotFound | documentRejected | oracleFailed => .warn
  | configLoaded | definitionLoaded | validatorCompiled | cleanupApplied => .info

/-- Failures are reported to the caller, so no event is fatal. -/
def isFatal (event : Event) : Bool := event.severity == .fatal

def record (event : Event) (fields : List (String × String)) : Record :=
  ⟨event.severity, event.text, fields⟩

end Event

end DocModel.Log
