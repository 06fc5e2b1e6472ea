import DocModel.Definition.Entry

namespace DocModel

/-- Places a fault of a field in its definition. -/
def FieldFault.within {α : Type} (name field : String) (result : Except FieldFault α) :
    Except SchemaError α :=
  result.mapError (.malformedField name field)

namespace Definition

/-- The entry of a field and its declared type, which must not be empty. -/
def entry (name field : String) (declared : Json) : Except SchemaError (Entry × String) :=
  FieldFault.within name field do
    let entry ← Entry.ofJson declared
    match entry.type with
    | some type => if type.isEmpty then throw .missingType else return (entry, type)
    | none => throw .missingType

/-- Limits in the wrong order admit no value. -/
def checkRange : Option Binary64 → Option Binary64 → Except FieldFault Unit
  | some min, some max => if max < min then .error (.emptyRange min max) else .ok ()
  | _, _ => .ok ()

def readChoices (declared : Option (List Json)) : Except FieldFault (Option (List Choice)) :=
  match declared with
  | none => .ok none
  | some items => ((Choice.ofList items).mapError .choices).map some

def property (name field : String) (declared : Json) : Except SchemaError Property := do
  let (entry, type) ← entry name field declared
  if (RelationKind.ofName? type).isSome then throw (.unknownFieldType name field type)
  FieldFault.within name field do
    let choices ← readChoices entry.choices
    checkRange entry.min entry.max
    return {
      type := .ofName type
      required := entry.required
      default := presentDefault entry.default
      min := entry.min
      max := entry.max
      choices
      removeIf := entry.removeIf.getD []
      description := entry.description }

def relation (name field : String) (declared : Json) : Except SchemaError Relation := do
  let (entry, type) ← entry name field declared
  match RelationKind.ofName? type with
  | none => throw (.unknownFieldType name field type)
  | some kind =>
    FieldFault.within name field do
      let model := entry.model.getD ""
      if model.isEmpty then throw .missingModel
      if entry.key.isSome ∧ kind ≠ .embeds .keyed then throw .keyNotAllowed
      return {
        kind
        model
        required := entry.required
        default := presentDefault entry.default
        key := entry.key
        description := entry.description }

/-- A section of a definition is an object; it may be absent or `null`. -/
def section? (name : String) (members : Json.Members) (key : String) :
    Except SchemaError Json.Members :=
  match members.get? key with
  | none | some .null => .ok []
  | some (.obj fields) => .ok fields
  | some _ => .error (.malformedDefinition name (.sectionNotObject key))

def checkName (name : String) (members : Json.Members) : Except SchemaError Unit :=
  match members.get? "name" with
  | none | some (.str _) => .ok ()
  | some _ => .error (.malformedDefinition name .nameNotString)

/-- Reads the definition document fetched under a name; the first fault in document order is
reported. -/
def ofJson (name : String) : Json → Except SchemaError Definition
  | .obj members => do
    checkName name members
    let withProperties ← (← section? name members "properties").foldlM
      (fun definition (field, declared) => do
        definition.addProperty field (← property name field declared)) (.empty name)
    (← section? name members "relations").foldlM
      (fun definition (field, declared) => do
        definition.addRelation field (← relation name field declared)) withProperties
  | _ => .error (.malformedDefinition name .notAnObject)

end Definition

end DocModel
