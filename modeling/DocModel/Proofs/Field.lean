import DocModel.Compile

namespace DocModel

/-- A declared field is a property or a relation. -/
inductive Field
  | property (property : Property)
  | relation (relation : Relation)

namespace Field

def head (name : String) : Field → FieldHead
  | property p => p.head name
  | relation r => r.head name

/-- How a field holds the documents that it embeds, and the declared name of their definition. -/
def embeds? : Field → Option (Embedding × String)
  | property p =>
    match p.type with
    | .reference declared => some (.one, declared)
    | _ => none
  | relation r =>
    match r.kind with
    | .embeds shape => some (shape.embedding r.key, r.model)
    | _ => none

/-- The tests of a value that is no document; the store looks after the other relations. -/
def checks : Field → List Check
  | property p => p.checks
  | relation _ => []

/-- The failure that a field reports when its target cannot be compiled. -/
def blame (owner name model : String) (failure : Failure) : Field → Failure
  | property p =>
    match p.type with
    | .reference declared => failure.ofReference owner name declared model
    | _ => failure
  | relation _ => failure

variable {embedding : Embedding} {declared : String}

theorem embeds?_property {p : Property} :
    (property p).embeds? = some (embedding, declared) ↔
      embedding = .one ∧ p.type = .reference declared := by
  cases h : p.type <;> simp [embeds?, h, eq_comm]

theorem embeds?_relation {r : Relation} :
    (relation r).embeds? = some (embedding, declared) ↔
      ∃ shape, r.kind = .embeds shape ∧ embedding = shape.embedding r.key ∧
        declared = r.model := by
  cases h : r.kind <;> simp [embeds?, h, eq_comm]

/-- A field changes no failure but that of a definition that is not there. -/
theorem blame_of_code_ne {field : Field} {failure : Failure}
    (h : failure.code ≠ .definitionNotFound) (owner name model : String) :
    field.blame owner name model failure = failure := by
  cases field with
  | property p =>
    cases type : p.type with
    | reference declared =>
      cases failure with
      | endless name => simp [blame, type, Failure.ofReference]
      | schema error =>
        cases error with
        | definitionNotFound missing => exact absurd rfl h
        | _ => simp [blame, type, Failure.ofReference, SchemaError.ofReference]
    | _ => simp [blame, type]
  | relation r => rfl

theorem blame_of_ne {field : Field} {failure : Failure} {model : String}
    (h : failure ≠ .schema (.definitionNotFound model)) (owner name : String) :
    field.blame owner name model failure = failure := by
  cases field with
  | property p =>
    cases type : p.type with
    | reference declared =>
      cases failure with
      | endless name => simp [blame, type, Failure.ofReference]
      | schema error =>
        cases error with
        | definitionNotFound missing =>
          have apart : missing ≠ model := fun same => h (congrArg _ (congrArg _ same))
          simp [blame, type, Failure.ofReference, SchemaError.ofReference, apart]
        | _ => simp [blame, type, Failure.ofReference, SchemaError.ofReference]
    | _ => simp [blame, type]
  | relation r => rfl

/-- A field that embeds a definition passes a missing one on, unless it is a property whose own type
is missing. -/
theorem blame_eq_definitionNotFound {field : Field} {owner name model missing : String}
    {failure : Failure} (embeds : field.embeds? = some (embedding, declared))
    (h : field.blame owner name model failure = .schema (.definitionNotFound missing)) :
    failure = .schema (.definitionNotFound missing) ∧
      (missing = model → ∃ r shape, field = .relation r ∧ r.kind = .embeds shape ∧
        declared = r.model) := by
  cases field with
  | property p =>
    obtain ⟨-, type⟩ := embeds?_property.1 embeds
    simp only [blame, type] at h
    cases failure with
    | endless name => cases h
    | schema error =>
      cases error with
      | definitionNotFound other =>
        simp only [Failure.ofReference, SchemaError.ofReference] at h
        split at h
        · cases h
        · rename_i apart
          cases h
          exact ⟨rfl, fun same => absurd same apart⟩
      | _ => cases h
  | relation r =>
    obtain ⟨shape, kind, -, same⟩ := embeds?_relation.1 embeds
    exact ⟨h, fun _ => ⟨r, shape, rfl, kind, same⟩⟩

theorem blame_ne_endless {field : Field} {failure : Failure} {inner : String}
    (h : ∀ name, failure ≠ .endless name) (owner name model : String) :
    field.blame owner name model failure ≠ .endless inner := by
  cases failure with
  | endless name => exact absurd rfl (h name)
  | schema error =>
    cases field with
    | property p => cases type : p.type <;> simp [blame, type, Failure.ofReference]
    | relation r => simp [blame]

end Field

theorem FieldType.eq_of_ofName_eq_reference {declared target : String}
    (h : ofName declared = .reference target) : declared = target := by
  unfold ofName at h
  split at h
  · cases h
  · split at h
    · cases h
    · exact FieldType.reference.inj h

theorem FieldType.name_ofName (declared : String) : (ofName declared).name = declared := by
  unfold ofName
  split
  · rename_i type found
    exact beq_iff_eq.1 (List.find?_some found :)
  · split
    · exact Eq.symm ‹declared = "any"›
    · rfl

namespace Definition

/-- The declared fields, properties before relations. -/
def fields (definition : Definition) : List (String × Field) :=
  definition.properties.map (fun (name, property) => (name, .property property)) ++
    definition.relations.map (fun (name, relation) => (name, .relation relation))

/-- The declared names of the definitions that a definition embeds. -/
def targets (definition : Definition) : List String :=
  definition.fields.filterMap fun (_, field) => field.embeds?.map (·.2)

theorem fields_names (definition : Definition) :
    definition.fields.map (·.1) = definition.fieldNames := by
  simp [fields, fieldNames, Function.comp_def]

theorem nodup_fields (definition : Definition) : (definition.fields.map (·.1)).Nodup := by
  rw [fields_names]
  exact definition.nodup

theorem mem_targets {definition : Definition} {declared : String} :
    declared ∈ definition.targets ↔
      ∃ name field embedding,
        (name, field) ∈ definition.fields ∧ field.embeds? = some (embedding, declared) := by
  simp [targets]

end Definition

end DocModel
