import DocModel.Proofs.Lists
import DocModel.Proofs.Source

namespace DocModel

namespace Definition

variable {name field : String} {before after definition : Definition} {members : Json.Members}

/-- A field read from an entry of its name. -/
def Reads {α : Type} (read : String → Json → Except SchemaError α) (entry : String × Json)
    (field : String × α) : Prop :=
  entry.1 = field.1 ∧ read entry.1 entry.2 = .ok field.2

/-- The fields read from the entries of a section. -/
def ReadsSection {α : Type} (read : String → Json → Except SchemaError α) (name : String)
    (members : Json.Members) (key : String) (fields : List (String × α)) : Prop :=
  ∃ entries, section? name members key = .ok entries ∧ List.Forall₂ (Reads read) entries fields

/-- The second definition has these fields after those of the first. -/
structure Extends (before : Definition) (properties : List (String × Property))
    (relations : List (String × Relation)) (after : Definition) : Prop where
  name : after.name = before.name
  properties : after.properties = before.properties ++ properties
  relations : after.relations = before.relations ++ relations

theorem Extends.unique {other : Definition} {properties : List (String × Property)}
    {relations : List (String × Relation)} (h : before.Extends properties relations after)
    (h' : before.Extends properties relations other) : after = other := by
  have sameName := h.name.trans h'.name.symm
  have sameProperties := h.properties.trans h'.properties.symm
  have sameRelations := h.relations.trans h'.relations.symm
  cases after
  cases other
  cases sameName
  cases sameProperties
  cases sameRelations
  rfl

theorem extends_nil (definition : Definition) : definition.Extends [] [] definition :=
  ⟨rfl, (List.append_nil _).symm, (List.append_nil _).symm⟩

theorem extends_append_iff (properties properties' : List (String × Property))
    (relations relations' : List (String × Relation)) :
    before.Extends (properties ++ properties') (relations ++ relations') after ↔
      ∃ next, before.Extends properties relations next ∧
        next.Extends properties' relations' after := by
  constructor
  · intro h
    have nodup : ((before.properties ++ properties).map (·.1) ++
        (before.relations ++ relations).map (·.1)).Nodup := by
      refine after.nodup.sublist ?_
      rw [h.properties, h.relations, ← List.append_assoc, ← List.append_assoc]
      exact ((List.sublist_append_left _ _).map _).append ((List.sublist_append_left _ _).map _)
    refine ⟨⟨before.name, _, _, nodup⟩, ⟨rfl, rfl, rfl⟩, h.name, ?_, ?_⟩
    · rw [h.properties, List.append_assoc]
    · rw [h.relations, List.append_assoc]
  · intro both
    obtain ⟨next, first, second⟩ := both
    refine ⟨second.name.trans first.name, ?_, ?_⟩
    · rw [second.properties, first.properties, List.append_assoc]
    · rw [second.relations, first.relations, List.append_assoc]

theorem addProperty_eq_ok_iff {property : Property} :
    before.addProperty field property = .ok after ↔
      before.Extends [(field, property)] [] after := by
  have adds : ∀ {next}, before.addProperty field property = .ok next →
      before.Extends [(field, property)] [] next := by
    intro next added
    obtain ⟨name, properties, relations⟩ := addProperty_eq_ok added
    exact ⟨name, properties, relations.trans (List.append_nil _).symm⟩
  refine ⟨adds, fun h => ?_⟩
  have fresh : field ∉ before.fieldNames := by
    have nodup := after.nodup
    rw [h.properties, h.relations] at nodup
    simp only [fieldNames]
    grind
  rw [addProperty, dif_neg fresh, h.unique (adds (dif_neg fresh))]

theorem addRelation_eq_ok_iff {relation : Relation} :
    before.addRelation field relation = .ok after ↔
      before.Extends [] [(field, relation)] after := by
  have adds : ∀ {next}, before.addRelation field relation = .ok next →
      before.Extends [] [(field, relation)] next := by
    intro next added
    obtain ⟨name, properties, relations⟩ := addRelation_eq_ok added
    exact ⟨name, properties.trans (List.append_nil _).symm, relations⟩
  refine ⟨adds, fun h => ?_⟩
  have fresh : field ∉ before.fieldNames := by
    have nodup := after.nodup
    rw [h.properties, h.relations] at nodup
    simp only [fieldNames]
    grind
  rw [addRelation, dif_neg fresh, h.unique (adds (dif_neg fresh))]

theorem foldlM_eq_ok {α : Type} (read : String → Json → Except SchemaError α)
    (add : Definition → String → α → Except SchemaError Definition)
    (Adds : Definition → List (String × α) → Definition → Prop)
    (nil : ∀ {before after}, Adds before [] after ↔ before = after)
    (cons : ∀ {before field value rest after}, Adds before ((field, value) :: rest) after ↔
      ∃ next, add before field value = .ok next ∧ Adds next rest after) {entries : Json.Members} :
    entries.foldlM (fun definition (field, declared) => do
        add definition field (← read field declared)) before = .ok after ↔
      ∃ fields, List.Forall₂ (Reads read) entries fields ∧ Adds before fields after := by
  induction entries generalizing before with
  | nil =>
    simp only [List.foldlM_nil, pure, Except.pure, Except.ok.injEq, List.forall₂_nil_left_iff,
      exists_eq_left, nil]
  | cons entry entries ih =>
    obtain ⟨field, declared⟩ := entry
    simp only [List.foldlM_cons, bind_eq_ok, ih]
    constructor
    · intro run
      obtain ⟨next, ⟨value, own, added⟩, fields, rest, adds⟩ := run
      exact ⟨(field, value) :: fields, .cons ⟨rfl, own⟩ rest, cons.2 ⟨next, added, adds⟩⟩
    · intro run
      obtain ⟨fields, related, adds⟩ := run
      cases related with
      | @cons _ read _ fields own rest =>
        obtain ⟨name, value⟩ := read
        obtain ⟨rfl, own⟩ := own
        obtain ⟨next, added, adds⟩ := cons.1 adds
        exact ⟨next, ⟨value, own, added⟩, fields, rest, adds⟩

theorem extends_nil_iff : before.Extends [] [] after ↔ before = after := by
  constructor
  · exact (extends_nil before).unique
  · intro same
    exact same ▸ extends_nil before

theorem foldlM_addProperty_eq_ok {entries : Json.Members} :
    entries.foldlM (fun definition (field, declared) => do
        definition.addProperty field (← property name field declared)) before = .ok after ↔
      ∃ fields, List.Forall₂ (Reads (property name)) entries fields ∧
        before.Extends fields [] after := by
  refine foldlM_eq_ok (property name) addProperty (Extends · · []) extends_nil_iff ?_
  intro before field value rest after
  simp only [addProperty_eq_ok_iff]
  exact extends_append_iff [(field, value)] rest [] []

theorem foldlM_addRelation_eq_ok {entries : Json.Members} :
    entries.foldlM (fun definition (field, declared) => do
        definition.addRelation field (← relation name field declared)) before = .ok after ↔
      ∃ fields, List.Forall₂ (Reads (relation name)) entries fields ∧
        before.Extends [] fields after := by
  refine foldlM_eq_ok (relation name) addRelation (Extends · [] ·) extends_nil_iff ?_
  intro before field value rest after
  simp only [addRelation_eq_ok_iff]
  exact extends_append_iff [] [] [(field, value)] rest

/-- A definition document is read if its sections are there and their entries can be read, to the
definition that has the fields read. -/
theorem ofJson_obj_eq_ok :
    ofJson name (.obj members) = .ok definition ↔
      checkName name members = .ok () ∧ definition.name = name ∧
        ReadsSection (property name) name members "properties" definition.properties ∧
        ReadsSection (relation name) name members "relations" definition.relations := by
  simp only [ofJson, bind_eq_ok, foldlM_addProperty_eq_ok, foldlM_addRelation_eq_ok]
  constructor
  · intro run
    obtain ⟨_, named, entries, own, middle, ⟨fields, read, first⟩, entries', own', fields', read',
      second⟩ := run
    have whole := (extends_append_iff _ _ _ _).2 ⟨middle, first, second⟩
    have properties : definition.properties = fields := by simpa [empty] using whole.properties
    have relations : definition.relations = fields' := by simpa [empty] using whole.relations
    rw [properties, relations]
    exact ⟨named, whole.name, ⟨entries, own, read⟩, entries', own', read'⟩
  · intro readable
    obtain ⟨named, same, ⟨entries, own, read⟩, entries', own', read'⟩ := readable
    have whole : (Definition.empty name).Extends (definition.properties ++ [])
        ([] ++ definition.relations) definition := by
      refine ⟨same, ?_, rfl⟩
      rw [List.append_nil]
      rfl
    obtain ⟨middle, first, second⟩ := (extends_append_iff _ _ _ _).1 whole
    exact ⟨(), named, entries, own, middle, ⟨_, read, first⟩, entries', own', _, read', second⟩

end Definition

end DocModel
