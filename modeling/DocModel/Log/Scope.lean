import DocModel.Log.Record

namespace DocModel.Log

/-- An operation that is logged when it begins and when it ends. -/
structure Scope where
  name : String
  fields : List (String × String)
deriving DecidableEq

/-- The ways an operation ends; `dropped` is an end that nobody reported. -/
inductive Scope.End
  | complete (extra : List (String × String))
  | failed (reason : String)
  | dropped
deriving DecidableEq

namespace Scope

/-- What stands for a duration, which no result depends on. -/
def unmeasured : String := "*"

def beginRecord (scope : Scope) : Record := ⟨.trace, scope.name ++ "_BEGIN", scope.fields⟩

def endRecord (scope : Scope) (elapsed : String) : Scope.End → Record
  | .complete extra =>
    ⟨.info, scope.name ++ "_COMPLETE", scope.fields ++ extra ++ [("elapsed_ms", elapsed)]⟩
  | .failed reason => ⟨.error, scope.name ++ "_FAILED", scope.fields ++ [("reason", reason)]⟩
  | .dropped =>
    ⟨.warn, scope.name ++ "_INCOMPLETE", [("reason", "scope dropped without completion")]⟩

/-- A scope that has begun, and whether its end was reported. -/
structure Begun where
  scope : Scope
  reported : Bool
deriving DecidableEq

namespace Begun

/-- Reports an end; a scope that is only dropped has nothing to report. -/
def report (begun : Begun) (elapsed : String) : Scope.End → Begun × List Record
  | .dropped => (begun, [])
  | ending => ({ begun with reported := true }, [begun.scope.endRecord elapsed ending])

/-- Every scope is released in the end, which is logged unless an end was reported before. -/
def release (begun : Begun) (elapsed : String) : List Record :=
  if begun.reported then [] else [begun.scope.endRecord elapsed .dropped]

end Begun

/-- The records of a scope from its begin to its release. -/
def records (scope : Scope) (elapsed : String) (ending : Scope.End) : List Record :=
  let (begun, reports) := Begun.report ⟨scope, false⟩ elapsed ending
  scope.beginRecord :: reports ++ begun.release elapsed

end Scope

end DocModel.Log
