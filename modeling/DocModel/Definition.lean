import DocModel.SchemaError

namespace DocModel

/-- The types a property can be checked against. -/
inductive Primitive
  | string
  | int
  | float
  | number
  | bool
  | object
  | array
  | geoPoint
  | date
  | dateTime
  | time
deriving DecidableEq

namespace Primitive

def all : List Primitive :=
  [string, int, float, number, bool, object, array, geoPoint, date, dateTime, time]

def name : Primitive → String
  | string => "string"
  | int => "int"
  | float => "float"
  | number => "number"
  | bool => "bool"
  | object => "object"
  | array => "array"
  | geoPoint => "GeoPoint"
  | date => "date"
  | dateTime => "datetime"
  | time => "time"

def isNumeric : Primitive → Bool
  | int | float | number => true
  | _ => false

end Primitive

/-- The declared type of a property; any other name refers to a definition, whose documents it
embeds. -/
inductive FieldType
  | primitive (type : Primitive)
  | any
  | reference (name : String)
deriving DecidableEq

namespace FieldType

def ofName (declared : String) : FieldType :=
  match Primitive.all.find? (·.name == declared) with
  | some type => .primitive type
  | none => if declared = "any" then .any else .reference declared

def name : FieldType → String
  | primitive type => type.name
  | any => "any"
  | reference name => name

def isNumeric : FieldType → Bool
  | primitive type => type.isNumeric
  | _ => false

def isReference : FieldType → Bool
  | reference _ => true
  | _ => false

end FieldType

/-- How a field holds the documents it embeds: one, a list, or a map from keys. -/
inductive Shape
  | one
  | many
  | keyed
deriving DecidableEq

/-- A relation embeds documents or, for all but the first kind, is left to the store. -/
inductive RelationKind
  | embeds (shape : Shape)
  | belongsTo
  | hasOne
  | hasMany
deriving DecidableEq

namespace RelationKind

def all : List RelationKind :=
  [embeds .one, embeds .many, embeds .keyed, belongsTo, hasOne, hasMany]

def name : RelationKind → String
  | embeds .one => "embedsOne"
  | embeds .many => "embedsMany"
  | embeds .keyed => "embedsManyAsObject"
  | belongsTo => "belongsTo"
  | hasOne => "hasOne"
  | hasMany => "hasMany"

def ofName? (declared : String) : Option RelationKind := all.find? (·.name == declared)

def isEmbedded : RelationKind → Bool
  | embeds _ => true
  | _ => false

end RelationKind

/-- What the keys of a map of documents stand for. -/
structure KeyPolicy where
  autoclean : Bool := false
  type : Option String := none
  model : Option String := none
deriving DecidableEq

/-- The model whose ids the keys are, if entries of unknown ids are to be dropped. -/
def KeyPolicy.idModel? (policy : KeyPolicy) : Option String :=
  if policy.autoclean ∧ policy.type = some "model" then policy.model else none

structure Property where
  type : FieldType
  required : Bool := false
  default : Option Json := none
  min : Option Binary64 := none
  max : Option Binary64 := none
  choices : Option (List Choice) := none
  removeIf : List Json := []
  description : Option String := none
deriving DecidableEq

structure Relation where
  kind : RelationKind
  model : String
  required : Bool := false
  default : Option Json := none
  key : Option KeyPolicy := none
  description : Option String := none
deriving DecidableEq

/-- A default of `null` is none. -/
def presentDefault (declared : Option Json) : Option Json := declared.filter (!·.isNull)

/-- A document type: its properties and its relations, each in declared order. -/
structure Definition where
  name : String
  properties : List (String × Property) := []
  relations : List (String × Relation) := []
  nodup : (properties.map (·.1) ++ relations.map (·.1)).Nodup := by simp
deriving DecidableEq

namespace Definition

/-- The field names, those of properties first. -/
def fieldNames (definition : Definition) : List String :=
  definition.properties.map (·.1) ++ definition.relations.map (·.1)

def empty (name : String) : Definition := { name }

def addProperty (definition : Definition) (field : String) (property : Property) :
    Except SchemaError Definition :=
  if fresh : field ∈ definition.fieldNames then
    .error (.malformedField definition.name field .repeated)
  else
    .ok { definition with
      properties := definition.properties ++ [(field, property)]
      nodup := by
        have := definition.nodup
        simp only [fieldNames, List.mem_append, not_or] at fresh
        simp only [List.map_append, List.map_cons, List.map_nil, List.append_assoc]
        grind }

def addRelation (definition : Definition) (field : String) (relation : Relation) :
    Except SchemaError Definition :=
  if fresh : field ∈ definition.fieldNames then
    .error (.malformedField definition.name field .repeated)
  else
    .ok { definition with
      relations := definition.relations ++ [(field, relation)]
      nodup := by
        have := definition.nodup
        simp only [fieldNames] at fresh
        simp only [List.map_append, List.map_cons, List.map_nil, ← List.append_assoc]
        grind }

def embeddedRelations (definition : Definition) : List (String × Relation) :=
  definition.relations.filter (·.2.kind.isEmbedded)

/-- The fields that must be present and that no default fills. -/
def requiredFields (definition : Definition) : List String :=
  (definition.properties.filter fun (_, p) => p.required && p.default.isNone).map (·.1) ++
    (definition.relations.filter fun (_, r) => r.required && r.default.isNone).map (·.1)

def choiceFields (definition : Definition) : List (String × List Choice) :=
  definition.properties.filterMap fun (field, property) => property.choices.map (field, ·)

end Definition

end DocModel
