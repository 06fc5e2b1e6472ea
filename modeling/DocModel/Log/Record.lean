import DocModel.Json.Printer
import DocModel.Log.Severity

namespace DocModel.Log

/-- One event with its fields, in the order they were given. -/
structure Record where
  severity : Severity
  event : String
  fields : List (String × String)
deriving DecidableEq

namespace Record

/-- The fields by ascending key; those of one key keep their order. -/
def sortedFields (record : Record) : List (String × String) :=
  record.fields.mergeSort fun a b => decide (a.1 ≤ b.1)

/-- The event and the severity come first and are not replaced by a field of their name; of several
fields with one key the last counts. -/
def toJson (record : Record) : Json :=
  let free := record.sortedFields.filter fun field => field.1 != "event" && field.1 != "severity"
  .obj (free.foldl (fun members (key, value) => Json.Members.insert members key (.str value))
    [("event", .str record.event), ("severity", .str record.severity.text)])

/-- The record as one line of text. -/
def line (record : Record) : String := record.toJson.render ++ "\n"

end Record

/-- Keeps the records of at least the given severity. -/
def atLeast (minimum : Severity) (records : List Record) : List Record :=
  records.filter fun record => decide (minimum ≤ record.severity)

end DocModel.Log
