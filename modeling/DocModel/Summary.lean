import DocModel.Compile

namespace DocModel

namespace Json

/-- An object member that is there only with a value. -/
def optionalMember (key : String) (value : Option Json) : Members :=
  (value.map fun value => (key, value)).toList

end Json

/-- What a summary tells of a property. -/
def Property.summary (name : String) (property : Property) : Json :=
  .obj ([("name", .str name), ("kind", .str "property"), ("type", .str property.type.name),
      ("required", .bool property.required)] ++
    Json.optionalMember "default" property.default ++
    (match property.type with
      | .reference target => [("embeds", .str target)]
      | _ => []) ++
    Json.optionalMember "choices"
      (property.choices.map fun choices => .arr (choices.map Choice.toPair)))

/-- What a summary tells of a relation. -/
def Relation.summary (name : String) (relation : Relation) : Json :=
  .obj ([("name", .str name), ("kind", .str relation.kind.name), ("model", .str relation.model),
      ("required", .bool relation.required)] ++
    Json.optionalMember "default" relation.default ++
    Json.optionalMember "autoclean" ((relation.key.bind KeyPolicy.idModel?).map .str))

/-- The summary of a definition that compiles: its fields in declared order. -/
def Definition.summary (definition : Definition) (typeName : String) : Json :=
  .obj [("type", .str typeName),
    ("fields", .arr (definition.properties.map (fun (name, property) => property.summary name) ++
      definition.relations.map (fun (name, relation) => relation.summary name))),
    ("required", .ofStrings definition.requiredFields)]

/-- Loads a definition once, compiles it and summarizes it. -/
def Compiler.describe (compiler : Compiler) (built : Nat) (name : String) : Outcome Json :=
  match compiler.load name with
  | (.error error, activities) => ⟨.error (.schema error), built, activities⟩
  | (.ok definition, activities) =>
    let outcome := compiler.compileDefinition built definition
    { result := outcome.result.map fun compiled => definition.summary compiled.validator.typeName
      built := outcome.built
      activities := activities ++ outcome.activities }

end DocModel
