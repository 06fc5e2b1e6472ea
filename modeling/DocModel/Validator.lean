import DocModel.Definition

namespace DocModel

inductive Bound
  | min
  | max
deriving DecidableEq

/-- One test of a plain value. -/
inductive Check
  | type (expected : Primitive)
  | range (bound : Bound) (limit : Binary64)
  | length (bound : Bound) (limit : Binary64)
  | choice (allowed : List Json) (eachElement : Bool)
deriving DecidableEq

/-- How a compiled field holds its documents; the keys of a map may be ids of a model. -/
inductive Embedding
  | one
  | many
  | keyed (idModel : Option String)
deriving DecidableEq

/-- What every rule says of its field: its name, whether and how its absence is made good, and the
values with which it is removed. -/
structure FieldHead where
  name : String
  required : Bool
  default : Option Json
  removeIf : List Json := []
deriving DecidableEq

mutual

/-- The compiled form of a definition, with its rules in declared order. -/
inductive Validator
  | mk (typeName : String) (rejectsUnknown : Bool) (rules : List FieldRule)

/-- The rule of one field: tests of a plain value, or documents that another validator checks. -/
inductive FieldRule
  | value (head : FieldHead) (checks : List Check)
  | embedded (head : FieldHead) (embedding : Embedding) (nested : Validator)

end

namespace FieldRule

def head : FieldRule → FieldHead
  | value head _ => head
  | embedded head _ _ => head

def name (rule : FieldRule) : String := rule.head.name

def nested? : FieldRule → Option (Embedding × Validator)
  | value _ _ => none
  | embedded _ embedding nested => some (embedding, nested)

/-- The model whose existing ids decide which entries stay. -/
def idModel? : FieldRule → Option String
  | embedded _ (.keyed model) _ => model
  | _ => none

end FieldRule

namespace Validator

def typeName : Validator → String
  | mk typeName _ _ => typeName

def rejectsUnknown : Validator → Bool
  | mk _ rejectsUnknown _ => rejectsUnknown

def rules : Validator → List FieldRule
  | mk _ _ rules => rules

def fieldNames (validator : Validator) : List String := validator.rules.map FieldRule.name

end Validator

/-- The value tests of a property: its type, then limits of the number or of the length, then
choices. -/
def Property.checks (property : Property) : List Check :=
  let limits (check : Bound → Binary64 → Check) : List Check :=
    (property.min.map (check .min)).toList ++ (property.max.map (check .max)).toList
  let typed : List Check :=
    match property.type with
    | .primitive type =>
      .type type :: if type.isNumeric then limits .range
        else if type = .string then limits .length
        else []
    | _ => []
  typed ++ (property.choices.map fun choices =>
    .choice (choices.map (·.value)) (property.type == .primitive .array)).toList

def Property.head (property : Property) (field : String) : FieldHead :=
  ⟨field, property.required, property.default, property.removeIf⟩

def Relation.head (relation : Relation) (field : String) : FieldHead :=
  ⟨field, relation.required, relation.default, []⟩

/-- The embedding of a shape; only the keys of a map have a policy. -/
def Shape.embedding (shape : Shape) (key : Option KeyPolicy) : Embedding :=
  match shape with
  | .one => .one
  | .many => .many
  | .keyed => .keyed (key.bind KeyPolicy.idModel?)

end DocModel
