import DocModel.ErrorCode
import DocModel.Log.Event
import DocModel.Log.Scope
import DocModel.Metrics

namespace DocModel

/-- What one cleanup removed, and the questions it asked. -/
structure CleanupStats where
  removedKeys : Nat := 0
  droppedEntries : Nat := 0
  queries : Nat := 0
deriving DecidableEq

def CleanupStats.changed (stats : CleanupStats) : Bool :=
  decide (0 < stats.removedKeys ∨ 0 < stats.droppedEntries)

/-- What a run does that is seen outside its result: questions to sources and oracles, and
progress. -/
inductive Activity
  | configured (path : String) (roots : Nat)
  | fetched (name : String)
  | missing (name : String)
  | parsed (name : String)
  | loaded (name : String)
  | compiling (name : String)
  | compiled (name : String) (fields : Nat)
  | abandoned (name : String) (reason : ErrorCode)
  | cacheHit (name : String)
  | queried (model : String) (ids : List Int)
  | queryFailed (model reason : String)
  | cleaned (name : String) (stats : CleanupStats)
  | validated (name : String)
  | rejected (name path : String)
deriving DecidableEq

namespace Activity

def compileScope (name : String) : Log.Scope := ⟨"COMPILE", [("type", name)]⟩

/-- The log records of an activity. -/
def records : Activity → List Log.Record
  | configured path roots =>
    [Log.Event.configLoaded.record [("path", path), ("roots", toString roots)]]
  | missing name => [Log.Event.definitionNotFound.record [("type", name)]]
  | parsed name => [Log.Event.definitionLoaded.record [("type", name)]]
  | compiling name => [(compileScope name).beginRecord]
  | compiled name fields =>
    [Log.Event.validatorCompiled.record [("type", name), ("fields", toString fields)],
      (compileScope name).endRecord Log.Scope.unmeasured (.complete [])]
  | abandoned name reason =>
    [(compileScope name).endRecord Log.Scope.unmeasured (.failed reason.text)]
  | cacheHit name => [Log.Event.validatorCacheHit.record [("type", name)]]
  | queried model ids =>
    [Log.Event.oracleQueried.record [("model", model), ("candidates", toString ids.length)]]
  | queryFailed model reason =>
    [Log.Event.oracleFailed.record [("model", model), ("reason", reason)]]
  | cleaned name stats =>
    if stats.changed then
      [Log.Event.cleanupApplied.record [("type", name), ("blacklisted", toString stats.removedKeys),
        ("dangling", toString stats.droppedEntries)]]
    else []
  | validated name => [Log.Event.documentValidated.record [("type", name)]]
  | rejected name path => [Log.Event.documentRejected.record [("type", name), ("field", path)]]
  | fetched _ | loaded _ => []

/-- What an activity adds to the counters. -/
def counts : Activity → List (Counter × Nat)
  | loaded _ => [(.definitionsLoaded, 1)]
  | compiled _ _ => [(.validatorsCompiled, 1)]
  | cacheHit _ => [(.cacheHits, 1)]
  | cleaned _ stats =>
    [(.blacklistedKeysRemoved, stats.removedKeys), (.danglingEntriesRemoved, stats.droppedEntries),
      (.oracleQueries, stats.queries)]
  | validated _ => [(.documentsValidated, 1)]
  | rejected _ _ => [(.documentsRejected, 1)]
  | _ => []

/-- The name whose document a source was asked for. -/
def fetchedName? : Activity → Option String
  | fetched name => some name
  | _ => none

/-- The model and the ids that an oracle was asked about. -/
def query? : Activity → Option (String × List Int)
  | queried model ids => some (model, ids)
  | _ => none

end Activity

/-- The log lines of a run at the given level and above. -/
def logLines (minimum : Log.Severity) (activities : List Activity) : List String :=
  (Log.atLeast minimum (activities.flatMap Activity.records)).map Log.Record.line

/-- Counts a run. -/
def Metrics.addAll (metrics : Metrics) (activities : List Activity) : Metrics :=
  (activities.flatMap Activity.counts).foldl
    (fun metrics (counter, amount) => metrics.add counter (.ofNat amount)) metrics

end DocModel
