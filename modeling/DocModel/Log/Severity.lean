namespace DocModel.Log

inductive Severity
  | trace
  | info
  | warn
  | error
  | fatal
deriving DecidableEq

namespace Severity

def rank : Severity → Nat
  | trace => 0
  | info => 1
  | warn => 2
  | error => 3
  | fatal => 4

def text : Severity → String
  | trace => "TRACE"
  | info => "INFO"
  | warn => "WARN"
  | error => "ERROR"
  | fatal => "FATAL"

/-- Reads the name of a level; ASCII letters may have either case. -/
def ofName? (name : String) : Option Severity :=
  match String.ofList (name.toList.map Char.toLower) with
  | "trace" => some trace
  | "info" => some info
  | "warn" | "warning" => some warn
  | "error" => some error
  | "fatal" => some fatal
  | _ => none

instance : LE Severity := ⟨fun a b => a.rank ≤ b.rank⟩

instance (a b : Severity) : Decidable (a ≤ b) := inferInstanceAs (Decidable (a.rank ≤ b.rank))

end Severity

end DocModel.Log
