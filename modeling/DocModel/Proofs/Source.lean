import DocModel.Proofs.Except
import DocModel.Proofs.Field

namespace DocModel

namespace Definition

variable {before after definition : Definition} {name field : String} {document declared : Json}

theorem addProperty_eq_ok {property : Property}
    (h : before.addProperty field property = .ok after) :
    after.name = before.name ∧ after.properties = before.properties ++ [(field, property)] ∧
      after.relations = before.relations := by
  unfold addProperty at h
  split at h
  · cases h
  · cases h
    exact ⟨rfl, rfl, rfl⟩

theorem addRelation_eq_ok {relation : Relation}
    (h : before.addRelation field relation = .ok after) :
    after.name = before.name ∧ after.properties = before.properties ∧
      after.relations = before.relations ++ [(field, relation)] := by
  unfold addRelation at h
  split at h
  · cases h
  · cases h
    exact ⟨rfl, rfl, rfl⟩

/-- What holds of the empty definition and is kept by every field that is added holds of the
definition read. -/
theorem ofJson_invariant {P : Definition → Prop} (empty : P (.empty name))
    (property : ∀ before field declared p after, Definition.property name field declared = .ok p →
      before.addProperty field p = .ok after → P before → P after)
    (relation : ∀ before field declared r after, Definition.relation name field declared = .ok r →
      before.addRelation field r = .ok after → P before → P after)
    (h : ofJson name document = .ok definition) : P definition := by
  cases document with
  | obj members =>
    simp only [ofJson, bind_eq_ok] at h
    obtain ⟨-, -, properties, -, withProperties, addProperties, relations, -, addRelations⟩ := h
    have first : P withProperties := by
      refine foldlM_invariant ?_ addProperties empty
      intro before entry after step good
      obtain ⟨p, read, added⟩ := bind_eq_ok.1 step
      exact property _ _ _ _ _ read added good
    refine foldlM_invariant ?_ addRelations first
    intro before entry after step good
    obtain ⟨r, read, added⟩ := bind_eq_ok.1 step
    exact relation _ _ _ _ _ read added good
  | _ => cases h

theorem name_of_ofJson (h : ofJson name document = .ok definition) : definition.name = name := by
  refine ofJson_invariant (P := fun d => d.name = name) rfl ?_ ?_ h
  · intro before field declared p after _ added good
    exact (addProperty_eq_ok added).1.trans good
  · intro before field declared r after _ added good
    exact (addRelation_eq_ok added).1.trans good

theorem entry_eq_ok {entry : Entry} {type : String}
    (h : Definition.entry name field declared = .ok (entry, type)) : type ≠ "" := by
  rw [Definition.entry, FieldFault.within, mapError_eq_ok, bind_eq_ok] at h
  obtain ⟨entry', -, h⟩ := h
  split at h
  · split at h
    · cases h
    · rename_i type' _ filled
      cases h
      exact fun same => filled (String.isEmpty_iff.2 same)
  · cases h

theorem property_target_ne_empty {p : Property}
    (h : Definition.property name field declared = .ok p) {embedding : Embedding} {target : String}
    (embeds : (Field.property p).embeds? = some (embedding, target)) : target ≠ "" := by
  rw [Definition.property, bind_eq_ok] at h
  obtain ⟨⟨entry, type⟩, entered, h⟩ := h
  dsimp only at h
  split at h
  · cases h
  · simp only [FieldFault.within, mapError_eq_ok, bind_eq_ok] at h
    obtain ⟨choices, -, -, -, h⟩ := h
    cases h
    have typed := (Field.embeds?_property.1 embeds).2
    rw [← FieldType.eq_of_ofName_eq_reference typed]
    exact entry_eq_ok entered

theorem relation_target_ne_empty {r : Relation}
    (h : Definition.relation name field declared = .ok r) {embedding : Embedding} {target : String}
    (embeds : (Field.relation r).embeds? = some (embedding, target)) : target ≠ "" := by
  rw [Definition.relation, bind_eq_ok] at h
  obtain ⟨⟨entry, type⟩, -, h⟩ := h
  obtain ⟨shape, -, -, rfl⟩ := Field.embeds?_relation.1 embeds
  dsimp only at h
  split at h
  · cases h
  · simp only [FieldFault.within, mapError_eq_ok] at h
    split at h
    · cases h
    · rename_i filled
      split at h
      · cases h
      · cases h
        exact fun same => filled (String.isEmpty_iff.2 same)

theorem targets_ne_empty (h : ofJson name document = .ok definition) :
    ∀ target ∈ definition.targets, target ≠ "" := by
  refine ofJson_invariant (P := fun d => ∀ target ∈ d.targets, target ≠ "") ?_ ?_ ?_ h
  · simp [Definition.empty, targets, fields]
  · intro before field declared p after read added good target mem
    obtain ⟨-, properties, relations⟩ := addProperty_eq_ok added
    obtain ⟨other, declaration, embedding, mem, embeds⟩ := mem_targets.1 mem
    simp only [fields, properties, relations, List.map_append, List.mem_append, List.map_cons,
      List.map_nil, List.mem_singleton, Prod.mk.injEq] at mem
    obtain (old | ⟨rfl, rfl⟩) | old := mem
    · exact good _ (mem_targets.2 ⟨_, _, _, List.mem_append_left _ old, embeds⟩)
    · exact property_target_ne_empty read embeds
    · exact good _ (mem_targets.2 ⟨_, _, _, List.mem_append_right _ old, embeds⟩)
  · intro before field declared r after read added good target mem
    obtain ⟨-, properties, relations⟩ := addRelation_eq_ok added
    obtain ⟨other, declaration, embedding, mem, embeds⟩ := mem_targets.1 mem
    simp only [fields, properties, relations, List.map_append, List.mem_append, List.map_cons,
      List.map_nil, List.mem_singleton, Prod.mk.injEq] at mem
    obtain old | old | ⟨rfl, rfl⟩ := mem
    · exact good _ (mem_targets.2 ⟨_, _, _, List.mem_append_left _ old, embeds⟩)
    · exact good _ (mem_targets.2 ⟨_, _, _, List.mem_append_right _ old, embeds⟩)
    · exact relation_target_ne_empty read embeds

end Definition

namespace Source

variable {source : Source} {name declared : String} {definition : Definition}

/-- The source has the definition under exactly this name. -/
def Holds (source : Source) (name : String) (definition : Definition) : Prop :=
  ∃ document, source.fetch name = .ok (some document) ∧
    Definition.ofJson name document = .ok definition

/-- One extension stripped from the name leaves none that would be stripped again. -/
def Settled (source : Source) (name : String) : Prop :=
  source.canonical (source.canonical name) = source.canonical name

/-- The definitions of the source name only settled definitions. -/
def Regular (source : Source) : Prop :=
  ∀ name definition, source.Holds name definition →
    ∀ declared ∈ definition.targets, source.Settled declared

theorem canonical_ne_empty (h : name ≠ "") : source.canonical name ≠ "" := by
  unfold canonical stripExtension
  dsimp only
  split
  · rename_i long
    intro empty
    have length := congrArg (fun text => text.toList.length) empty
    simp only [String.toList_ofList, List.length_take, String.toList_empty, List.length_nil]
      at length
    omega
  · exact h

theorem Holds.name_eq (h : source.Holds name definition) : definition.name = name := by
  obtain ⟨document, -, read⟩ := h
  exact Definition.name_of_ofJson read

theorem Holds.mem_names (h : source.Holds name definition) : name ∈ source.names := by
  obtain ⟨document, fetch, -⟩ := h
  exact source.mem_names fetch

theorem Holds.unique {other : Definition} (h : source.Holds name definition)
    (h' : source.Holds name other) : definition = other := by
  obtain ⟨document, fetch, read⟩ := h
  obtain ⟨document', fetch', read'⟩ := h'
  rw [fetch] at fetch'
  cases fetch'
  rw [read] at read'
  cases read'
  rfl

theorem load_eq_ok_iff :
    (source.load name).1 = .ok definition ↔ source.Holds (source.canonical name) definition := by
  unfold load Holds
  cases fetch : source.fetch (source.canonical name) with
  | error error => simp [fetch]
  | ok found =>
    cases found with
    | none => simp [fetch]
    | some document =>
      cases read : Definition.ofJson (source.canonical name) document with
      | error error => simp [fetch, read]
      | ok definition' => simp [fetch, read]

/-- Whether the definitions that a source has name only settled definitions. -/
def isRegular (source : Source) : Bool :=
  source.names.all fun name =>
    match source.fetch name with
    | .ok (some document) =>
      match Definition.ofJson name document with
      | .ok definition => definition.targets.all fun declared =>
        source.canonical (source.canonical declared) == source.canonical declared
      | .error _ => true
    | _ => true

theorem regular_of_isRegular (h : source.isRegular) : source.Regular := by
  intro name definition holds declared target
  have all := List.all_eq_true.1 h _ holds.mem_names
  obtain ⟨document, fetch, read⟩ := holds
  simp only [fetch, read, List.all_eq_true] at all
  exact beq_iff_eq.1 (all declared target)

end Source

namespace Registry

/-- Whether the definitions of a registry name only settled definitions. -/
def isRegular (registry : Registry) : Bool :=
  registry.documents.all fun (name, document) =>
    match Definition.ofJson name document with
    | .ok definition => definition.targets.all fun declared =>
      registry.source.canonical (registry.source.canonical declared) ==
        registry.source.canonical declared
    | .error _ => true

theorem regular_of_isRegular {registry : Registry} (h : registry.isRegular) :
    registry.source.Regular := by
  intro name definition holds declared target
  obtain ⟨document, fetch, read⟩ := holds
  have mem : (name, document) ∈ registry.documents := by
    obtain ⟨before, after, split, -⟩ := List.lookup_eq_some_iff.1 (Except.ok.inj fetch)
    simp [split]
  have all := List.all_eq_true.1 h _ mem
  simp only [read, List.all_eq_true] at all
  exact beq_iff_eq.1 (all declared target)

end Registry

namespace Compiler

theorem load_eq_ok_iff {compiler : Compiler} {name : String} {definition : Definition} :
    (compiler.load name).1 = .ok definition ↔
      compiler.source.Holds (compiler.canonical (compiler.canonical name)) definition := by
  rw [canonical, canonical, ← Source.load_eq_ok_iff]
  unfold load canonical
  cases h : compiler.source.load (compiler.source.canonical name) with
  | mk result activities =>
    cases result with
    | error error => simp
    | ok definition' => simp

end Compiler

end DocModel
