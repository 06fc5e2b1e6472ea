import DocModel.Json.Printer
import DocModel.Text.Quoted

namespace DocModel.Json

/-- A value of a type that its place does not admit. -/
inductive Found
  | null
  | bool (value : Bool)
  | number (value : Number)
  | string (value : String)
  | sequence
  | map
deriving DecidableEq

def Found.text : Found → String
  | null => "null"
  | bool b => s!"boolean `{b}`"
  | number (.int n) => s!"integer `{n}`"
  | number (.float x) => s!"floating point `{Number.render (.float x)}`"
  | string s => s!"string {Text.showQuoted s}"
  | sequence => "sequence"
  | map => "map"

def Found.ofJson : Json → Found
  | .null => null
  | .bool b => bool b
  | .num n => number n
  | .str s => string s
  | .arr _ => sequence
  | .obj _ => map

/-- What was found and what was wanted in its place. -/
structure Mismatch where
  found : Found
  wanted : String
deriving DecidableEq

def Mismatch.message (mismatch : Mismatch) : String :=
  s!"invalid type: {mismatch.found.text}, expected {mismatch.wanted}"

end DocModel.Json
