import DocModel.Definition
import DocModel.Json.Equality

namespace DocModel.Definition

/-- The rules of one field as a document states them, before they are checked against each other. -/
structure Entry where
  type : Option String := none
  required : Bool := false
  default : Option Json := none
  min : Option Binary64 := none
  max : Option Binary64 := none
  choices : Option (List Json) := none
  removeIf : Option (List Json) := none
  model : Option String := none
  key : Option KeyPolicy := none
  description : Option String := none

namespace Entry

def mismatch {α : Type} (value : Json) (wanted : String) : Except FieldFault α :=
  .error (.illTyped ⟨.ofJson value, wanted⟩)

def string : Json → Except FieldFault String
  | .str s => .ok s
  | value => mismatch value "a string"

def bool : Json → Except FieldFault Bool
  | .bool b => .ok b
  | value => mismatch value "a boolean"

def limit : Json → Except FieldFault Binary64
  | .num n => .ok n.toBinary64
  | value => mismatch value "f64"

def list : Json → Except FieldFault (List Json)
  | .arr items => .ok items
  | value => mismatch value "a sequence"

/-- Reads a value that may be `null`. -/
def optional {α : Type} (read : Json → Except FieldFault α) (value : Json) :
    Except FieldFault (Option α) :=
  if value.isNull then .ok none else (read value).map some

def keyMember (policy : KeyPolicy) (key : String) (value : Json) : Except FieldFault KeyPolicy :=
  match key with
  | "autoclean" => do return { policy with autoclean := ← bool value }
  | "type" => do return { policy with type := ← optional string value }
  | "model" => do return { policy with model := ← optional string value }
  | _ => .ok policy

/-- A key policy is an object, or a list of its parts in order. -/
def keyPolicy : Json → Except FieldFault KeyPolicy
  | .obj members => members.foldlM (fun policy (key, value) => keyMember policy key value) {}
  | .arr items => do
    let policy ← (["autoclean", "type", "model"].zip items).foldlM
      (fun policy (key, value) => keyMember policy key value) {}
    if 3 < items.length then throw (.keyTooLong items.length)
    return policy
  | value => mismatch value "struct KeySpec"

/-- Takes one member into the entry; unknown members are of no account. -/
def addMember (entry : Entry) (key : String) (value : Json) : Except FieldFault Entry :=
  match key with
  | "type" => do return { entry with type := ← optional string value }
  | "required" => do return { entry with required := ← bool value }
  | "default" => .ok { entry with default := some value }
  | "min" => do return { entry with min := ← optional limit value }
  | "max" => do return { entry with max := ← optional limit value }
  | "choices" => do return { entry with choices := ← optional list value }
  | "deleteKeyIfValueIn" => do return { entry with removeIf := ← optional list value }
  | "model" => do return { entry with model := ← optional string value }
  | "key" => do return { entry with key := ← optional keyPolicy value }
  | "description" => do return { entry with description := ← optional string value }
  | _ => .ok entry

/-- Reads the members in document order, so that the first fault is reported. -/
def ofJson : Json → Except FieldFault Entry
  | .obj members => members.foldlM (fun entry (key, value) => entry.addMember key value) {}
  | _ => .error .notAnObject

end Entry

end DocModel.Definition
