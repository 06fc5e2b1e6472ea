import DocModel.Json.Equality

namespace DocModel

/-- A value that a field may take, and the label it is shown by. -/
structure Choice where
  value : Json
  label : Json
deriving DecidableEq

namespace Choice

inductive Fault
  | empty
  | notAPair (index length : Nat)
  | object (index : Nat)
deriving DecidableEq

def Fault.message : Fault → String
  | empty => "'choices' must not be empty"
  | notAPair index length =>
    s!"choice #{index} must be a [value, label] pair, got {length} elements"
  | object index => s!"choice #{index} must be a scalar or a [value, label] pair"

/-- A declared choice is a scalar, which labels itself, or a pair of a value and its label. -/
def ofJson (index : Nat) : Json → Except Fault Choice
  | .arr [value, label] => .ok ⟨value, label⟩
  | .arr items => .error (.notAPair index items.length)
  | .obj _ => .error (.object index)
  | scalar => .ok ⟨scalar, scalar⟩

def ofItems (index : Nat) : List Json → Except Fault (List Choice)
  | [] => .ok []
  | item :: items => do
    let choice ← ofJson index item
    return choice :: (← ofItems (index + 1) items)

/-- Reads a declared list of choices, in order and with repetitions. -/
def ofList (declared : List Json) : Except Fault (List Choice) :=
  if declared.isEmpty then .error .empty else ofItems 0 declared

/-- The index of the first choice whose value is like the given one. -/
def position? (choices : List Choice) (value : Json) : Option Nat :=
  choices.findIdx? (·.value.alike value)

def label? (choices : List Choice) (value : Json) : Option Json :=
  (choices.find? (·.value.alike value)).map (·.label)

def toPair (choice : Choice) : Json := .arr [choice.value, choice.label]

end Choice

end DocModel
