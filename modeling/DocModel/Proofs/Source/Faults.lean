import DocModel.Proofs.Source
import DocModel.Source.Directory

namespace DocModel

/-- The error is about the document of the name, which is there. -/
structure SchemaError.FaultOf (name : String) (error : SchemaError) : Prop where
  typeName : error.typeName = name
  code_ne : error.code ≠ .definitionNotFound

namespace SchemaError.FaultOf

theorem malformedDefinition (name : String) (fault : DocumentFault) :
    (SchemaError.malformedDefinition name fault).FaultOf name := ⟨rfl, nofun⟩

theorem malformedField (name field : String) (fault : FieldFault) :
    (SchemaError.malformedField name field fault).FaultOf name := ⟨rfl, nofun⟩

theorem unknownFieldType (name field declared : String) :
    (SchemaError.unknownFieldType name field declared).FaultOf name := ⟨rfl, nofun⟩

end SchemaError.FaultOf

namespace Definition

variable {name field key : String} {declared document : Json} {members : Json.Members}
  {error : SchemaError} {before : Definition}

theorem faultOf_within {α : Type} {result : Except FieldFault α}
    (h : FieldFault.within name field result = .error error) : error.FaultOf name := by
  cases result with
  | ok value => cases h
  | error fault =>
    cases h
    exact .malformedField _ _ _

theorem faultOf_property (h : property name field declared = .error error) :
    error.FaultOf name := by
  obtain entered | ⟨⟨entry, type⟩, -, h⟩ := bind_eq_error.1 h
  · exact faultOf_within entered
  dsimp only at h
  split at h
  · cases h
    exact .unknownFieldType _ _ _
  · exact faultOf_within h

theorem faultOf_relation (h : relation name field declared = .error error) :
    error.FaultOf name := by
  obtain entered | ⟨⟨entry, type⟩, -, h⟩ := bind_eq_error.1 h
  · exact faultOf_within entered
  dsimp only at h
  split at h
  · cases h
    exact .unknownFieldType _ _ _
  · exact faultOf_within h

theorem faultOf_addProperty {p : Property} (h : before.addProperty field p = .error error) :
    error.FaultOf before.name := by
  unfold addProperty at h
  split at h
  · cases h
    exact .malformedField _ _ _
  · cases h

theorem faultOf_addRelation {r : Relation} (h : before.addRelation field r = .error error) :
    error.FaultOf before.name := by
  unfold addRelation at h
  split at h
  · cases h
    exact .malformedField _ _ _
  · cases h

theorem faultOf_checkName (h : checkName name members = .error error) : error.FaultOf name := by
  unfold checkName at h
  split at h
  · cases h
  · cases h
  · cases h
    exact .malformedDefinition _ _

theorem faultOf_section (h : section? name members key = .error error) : error.FaultOf name := by
  unfold section? at h
  split at h
  · cases h
  · cases h
  · cases h
  · cases h
    exact .malformedDefinition _ _

theorem faultOf_ofJson (h : ofJson name document = .error error) : error.FaultOf name := by
  cases document with
  | obj members =>
    obtain named | ⟨-, -, h⟩ := bind_eq_error.1 h
    · exact faultOf_checkName named
    obtain listed | ⟨properties, -, h⟩ := bind_eq_error.1 h
    · exact faultOf_section listed
    obtain failed | ⟨withProperties, added, h⟩ := bind_eq_error.1 h
    · refine foldlM_error (P := fun d => d.name = name) ?_ ?_ failed rfl
      · intro before entry after step named
        obtain ⟨p, -, added⟩ := bind_eq_ok.1 step
        exact (addProperty_eq_ok added).1.trans named
      · intro before entry error named step
        obtain unread | ⟨p, -, repeated⟩ := bind_eq_error.1 step
        · exact faultOf_property unread
        · exact named ▸ faultOf_addProperty repeated
    obtain listed | ⟨relations, -, failed⟩ := bind_eq_error.1 h
    · exact faultOf_section listed
    have named : withProperties.name = name := by
      refine foldlM_invariant (P := fun d => d.name = name) ?_ added rfl
      intro before entry after step named
      obtain ⟨p, -, added⟩ := bind_eq_ok.1 step
      exact (addProperty_eq_ok added).1.trans named
    refine foldlM_error (P := fun d => d.name = name) ?_ ?_ failed named
    · intro before entry after step named
      obtain ⟨r, -, added⟩ := bind_eq_ok.1 step
      exact (addRelation_eq_ok added).1.trans named
    · intro before entry error named step
      obtain unread | ⟨r, -, repeated⟩ := bind_eq_error.1 step
      · exact faultOf_relation unread
      · exact named ▸ faultOf_addRelation repeated
  | _ =>
    cases h
    exact .malformedDefinition _ _

end Definition

namespace Source

variable {source : Source} {name missing : String}

/-- An error of the source tells of a document that is there and cannot be read; a document that is
not there is no error. -/
def Candid (source : Source) : Prop :=
  ∀ name error, source.fetch name = .error error → error.code ≠ .definitionNotFound

theorem load_eq_definitionNotFound (candid : source.Candid)
    (h : (source.load name).1 = .error (.definitionNotFound missing)) :
    missing = source.canonical name ∧ source.fetch (source.canonical name) = .ok none := by
  unfold load at h
  cases fetch : source.fetch (source.canonical name) with
  | error error =>
    simp only [fetch, Except.error.injEq] at h
    exact absurd rfl (h ▸ candid _ _ fetch)
  | ok found =>
    cases found with
    | none =>
      simp only [fetch, Except.error.injEq, SchemaError.definitionNotFound.injEq] at h
      exact ⟨h.symm, rfl⟩
    | some document =>
      cases read : Definition.ofJson (source.canonical name) document with
      | error error =>
        simp only [fetch, read, Except.error.injEq] at h
        exact absurd rfl (h ▸ (Definition.faultOf_ofJson read).code_ne)
      | ok definition => simp [fetch, read] at h

end Source

theorem Registry.candid (registry : Registry) : registry.source.Candid := by
  intro name error fetch
  cases fetch

theorem Directory.candid (directory : Directory) : directory.source.Candid := by
  intro name error h
  change directory.fetch name = .error error at h
  unfold Directory.fetch at h
  split at h
  · split at h
    · rw [map_eq_error] at h
      unfold readDocument at h
      split at h
      · cases h
        exact (SchemaError.FaultOf.malformedDefinition _ _).code_ne
      · rw [mapError_eq_error] at h
        obtain ⟨reason, -, rfl⟩ := h
        exact (SchemaError.FaultOf.malformedDefinition _ _).code_ne
    · cases h
  · cases h
    exact (SchemaError.FaultOf.malformedDefinition _ _).code_ne

namespace Compiler

variable {compiler : Compiler} {requested : String}

theorem load_of_absent
    (absent : compiler.source.fetch (compiler.canonical (compiler.canonical requested)) =
      .ok none) :
    compiler.load requested =
      (.error (.definitionNotFound (compiler.canonical (compiler.canonical requested))),
        [.fetched (compiler.canonical (compiler.canonical requested)),
          .missing (compiler.canonical (compiler.canonical requested))]) := by
  unfold load Source.load canonical at *
  simp only [absent]

end Compiler

end DocModel
