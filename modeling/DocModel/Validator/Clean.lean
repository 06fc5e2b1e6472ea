import DocModel.Activity
import DocModel.Json.Equality
import DocModel.Oracle
import DocModel.Validator
import DocModel.Violation

namespace DocModel

/-- What a cleanup has removed and done so far. -/
structure Sweep where
  stats : CleanupStats := {}
  activities : List Activity := []

/-- A cleanup fails when an oracle is needed and gives no answer. -/
abbrev Cleaning := EStateM Violation Sweep

namespace Sweep

def note (activity : Activity) (sweep : Sweep) : Sweep :=
  { sweep with activities := sweep.activities ++ [activity] }

def countQuery (sweep : Sweep) : Sweep :=
  { sweep with stats := { sweep.stats with queries := sweep.stats.queries + 1 } }

def countDropped (count : Nat) (sweep : Sweep) : Sweep :=
  { sweep with stats := { sweep.stats with droppedEntries := sweep.stats.droppedEntries + count } }

def countRemoved (sweep : Sweep) : Sweep :=
  { sweep with stats := { sweep.stats with removedKeys := sweep.stats.removedKeys + 1 } }

end Sweep

/-- Asks which of the ids exist; with no ids there is no question. -/
def existingIds (oracle : Option Oracle) (location : Location) (model : String) (ids : List Int) :
    Cleaning (List Int) :=
  if ids.isEmpty then pure []
  else
    match oracle with
    | none => throw ⟨location, .noOracle model⟩
    | some oracle => do
      modify fun sweep => (sweep.note (.queried model ids)).countQuery
      match oracle model ids with
      | .ok existing => pure existing
      | .error error => do
        modify (Sweep.note (.queryFailed model error.message))
        throw ⟨location, .oracleFailed model error.message⟩

/-- Keeps the entries of a map whose keys are ids that exist. -/
def dropDangling (oracle : Option Oracle) (location : Location) (model : String)
    (entries : Json.Members) : Cleaning Json.Members := do
  let existing ← existingIds oracle location model (keyIds entries.keys)
  let kept := entries.filter fun entry => (keyId? entry.1).any existing.contains
  modify (Sweep.countDropped (entries.length - kept.length))
  return kept

namespace Embedding

def cleanItems (document : Location → Json → Cleaning Json) (location : Location) (index : Nat) :
    List Json → Cleaning (List Json)
  | [] => pure []
  | item :: items => do
    let item ← document (location ++ [.index index]) item
    return item :: (← cleanItems document location (index + 1) items)

def cleanEntries (document : Location → Json → Cleaning Json) (location : Location) :
    Json.Members → Cleaning Json.Members
  | [] => pure []
  | (key, entry) :: entries => do
    let entry ← document (location ++ [.key key]) entry
    return (key, entry) :: (← cleanEntries document location entries)

/-- Cleans the documents that a field holds, and then the map that holds them. -/
def clean (oracle : Option Oracle) (document : Location → Json → Cleaning Json)
    (embedding : Embedding) (location : Location) (value : Json) : Cleaning Json :=
  match embedding, value with
  | many, .arr items => do return .arr (← cleanItems document location 0 items)
  | one, .obj _ | many, .obj _ => document location value
  | keyed model, .obj entries => do
    let entries ← cleanEntries document location entries
    match model with
    | some model => return .obj (← dropDangling oracle location model entries)
    | none => return .obj entries
  | _, value => pure value

end Embedding

/-- Removes a field whose value its rule lists for removal. -/
def FieldHead.prune (head : FieldHead) (members : Json.Members) : Cleaning Json.Members :=
  if (members.get? head.name).any (·.isAmong head.removeIf) then do
    modify Sweep.countRemoved
    return members.erase head.name
  else pure members

/-- Replaces the value of a field, if it is there, by its cleaned value. -/
def FieldHead.refine (head : FieldHead) (clean : Json → Cleaning Json) (members : Json.Members) :
    Cleaning Json.Members :=
  match members.get? head.name with
  | some value => do return members.set head.name (← clean value)
  | none => pure members

mutual

/-- Cleans a document that passed the check, embedded documents before the one that holds them. -/
def Validator.clean (oracle : Option Oracle) (validator : Validator) (location : Location)
    (document : Json) : Cleaning Json :=
  match validator with
  | .mk _ _ rules =>
    match document with
    | .obj members => do return .obj (← cleanRules oracle rules location members)
    | value => pure value
termination_by structural validator

def FieldRule.clean (oracle : Option Oracle) (rule : FieldRule) (location : Location)
    (value : Json) : Cleaning Json :=
  match rule with
  | .value _ _ => pure value
  | .embedded _ embedding nested =>
    embedding.clean oracle (fun location document => nested.clean oracle location document)
      location value
termination_by structural rule

def cleanRules (oracle : Option Oracle) (rules : List FieldRule) (location : Location)
    (members : Json.Members) : Cleaning Json.Members :=
  match rules with
  | [] => pure members
  | rule :: rules => do
    let place := location ++ [.key rule.name]
    let members ← rule.head.refine (fun value => rule.clean oracle place value) members
    let members ← rule.head.prune members
    cleanRules oracle rules location members
termination_by structural rules

end

end DocModel
