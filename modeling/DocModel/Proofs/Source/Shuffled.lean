import DocModel.Proofs.Lists
import DocModel.Proofs.Source.Embeds
import DocModel.Proofs.Source.Reads

namespace DocModel

/-- The value of a key in a definition document, where the entries of a section may stand in another
order. -/
inductive ShuffledSection (key : String) : Json → Json → Prop
  | same (value : Json) : ShuffledSection key value value
  | entries {entries others : Json.Members} (fields : key = "properties" ∨ key = "relations")
    (perm : entries.Perm others) : ShuffledSection key (.obj entries) (.obj others)

/-- Definition documents that agree except for the order of the entries of properties and of
relations. -/
inductive ShuffledDocument : Json → Json → Prop
  | same (document : Json) : ShuffledDocument document document
  | obj {members others : Json.Members}
    (sections : List.Forall₂ (fun member other => member.1 = other.1 ∧
      ShuffledSection member.1 member.2 other.2) members others) :
    ShuffledDocument (.obj members) (.obj others)

/-- Definitions that agree except for the order of properties and of relations. -/
structure Definition.Shuffled (definition other : Definition) : Prop where
  name : other.name = definition.name
  properties : definition.properties.Perm other.properties
  relations : definition.relations.Perm other.relations

/-- Sources with the same documents, except for the order of properties and of relations. -/
structure Source.Shuffled (source other : Source) : Prop where
  extension : other.extension = source.extension
  forth : ∀ {name document}, source.fetch name = .ok (some document) →
    ∃ document', other.fetch name = .ok (some document') ∧ ShuffledDocument document document'
  back : ∀ {name document}, other.fetch name = .ok (some document) →
    ∃ document', source.fetch name = .ok (some document') ∧ ShuffledDocument document document'

theorem ShuffledSection.symm {key : String} {value other : Json}
    (h : ShuffledSection key value other) : ShuffledSection key other value := by
  cases h with
  | same => exact .same value
  | entries fields perm => exact .entries fields perm.symm

theorem ShuffledDocument.symm {document other : Json} (h : ShuffledDocument document other) :
    ShuffledDocument other document := by
  cases h with
  | same => exact .same document
  | obj sections =>
    refine .obj (sections.flip.imp fun other member both => ⟨both.1.symm, ?_⟩)
    exact both.1 ▸ both.2.symm

theorem Source.Shuffled.symm {source other : Source} (h : source.Shuffled other) :
    other.Shuffled source where
  extension := h.extension.symm
  forth := h.back
  back := h.forth

theorem rel_lookup {α β : Type} {R : String → α → β → Prop} {entries : List (String × α)}
    {others : List (String × β)}
    (h : List.Forall₂ (fun entry other => entry.1 = other.1 ∧ R entry.1 entry.2 other.2)
      entries others) (key : String) :
    Option.Rel (R key) (entries.lookup key) (others.lookup key) := by
  induction h with
  | nil => exact .none
  | @cons entry other _ _ first _ ih =>
    obtain ⟨name, value⟩ := entry
    obtain ⟨name', value'⟩ := other
    obtain ⟨rfl, first⟩ := first
    rw [lookup_cons_eq_ite, lookup_cons_eq_ite]
    split
    · rename_i same
      exact .some (same ▸ first)
    · exact ih

namespace Definition

variable {name key : String} {definition other : Definition} {members others : Json.Members}
  {document document' : Json}

theorem checkName_congr (h : Option.Rel (ShuffledSection "name") (members.get? "name")
    (others.get? "name")) : checkName name members = checkName name others := by
  rw [checkName, checkName]
  generalize members.get? "name" = value at h
  generalize others.get? "name" = value' at h
  cases h with
  | none => rfl
  | some first =>
    cases first with
    | same => rfl
    | entries fields => simp at fields

theorem section?_perm (h : Option.Rel (ShuffledSection key) (members.get? key)
    (others.get? key)) {entries : Json.Members} (own : section? name members key = .ok entries) :
    ∃ entries', section? name others key = .ok entries' ∧ entries.Perm entries' := by
  rw [section?] at own ⊢
  generalize members.get? key = value at h own
  generalize others.get? key = value' at h
  cases h with
  | none => exact ⟨entries, own, .refl _⟩
  | some first =>
    cases first with
    | same => exact ⟨entries, own, .refl _⟩
    | entries fields perm =>
      cases own
      exact ⟨_, rfl, perm⟩

theorem ReadsSection.exists_perm {α : Type} {read : String → Json → Except SchemaError α}
    {fields : List (String × α)} (h : Option.Rel (ShuffledSection key) (members.get? key)
      (others.get? key)) (reads : ReadsSection read name members key fields) :
    ∃ fields', ReadsSection read name others key fields' ∧ fields.Perm fields' := by
  obtain ⟨entries, own, reads⟩ := reads
  obtain ⟨entries', own', perm⟩ := section?_perm h own
  obtain ⟨fields', reads', perm'⟩ := List.perm_comp_forall₂ perm.symm reads
  exact ⟨fields', ⟨entries', own', reads'⟩, perm'.symm⟩

theorem shuffled_of_ofJson (h : ShuffledDocument document document')
    (read : ofJson name document = .ok definition) :
    ∃ definition', ofJson name document' = .ok definition' ∧ definition.Shuffled definition' := by
  cases h with
  | same => exact ⟨definition, read, rfl, .refl _, .refl _⟩
  | @obj members others sections =>
    obtain ⟨named, same, properties, relations⟩ := ofJson_obj_eq_ok.1 read
    rw [checkName_congr (rel_lookup sections "name")] at named
    obtain ⟨fields, properties, perm⟩ := properties.exists_perm (rel_lookup sections "properties")
    obtain ⟨fields', relations, perm'⟩ := relations.exists_perm (rel_lookup sections "relations")
    have nodup : (fields.map (·.1) ++ fields'.map (·.1)).Nodup :=
      ((perm.map _).append (perm'.map _)).nodup_iff.1 definition.nodup
    exact ⟨⟨name, fields, fields', nodup⟩, ofJson_obj_eq_ok.2 ⟨named, rfl, properties, relations⟩,
      same.symm, perm, perm'⟩

theorem Shuffled.perm_fields (h : definition.Shuffled other) :
    definition.fields.Perm other.fields :=
  (h.properties.map _).append (h.relations.map _)

theorem Shuffled.mem_targets_iff {declared : String} (h : definition.Shuffled other) :
    declared ∈ definition.targets ↔ declared ∈ other.targets :=
  (h.perm_fields.filterMap _).mem_iff

end Definition

namespace Source.Shuffled

variable {source other : Source} {name target : String} {definition : Definition}

theorem canonical_eq (h : source.Shuffled other) : other.canonical = source.canonical := by
  funext name
  rw [canonical, canonical, h.extension]

theorem settled (h : source.Shuffled other) (settled : source.Settled name) :
    other.Settled name := by
  rw [Settled, h.canonical_eq]
  exact settled

theorem exists_holds (h : source.Shuffled other) (holds : source.Holds name definition) :
    ∃ definition', other.Holds name definition' ∧ definition.Shuffled definition' := by
  obtain ⟨document, fetch, read⟩ := holds
  obtain ⟨document', fetch', shuffled⟩ := h.forth fetch
  obtain ⟨definition', read', same⟩ := Definition.shuffled_of_ofJson shuffled read
  exact ⟨definition', ⟨document', fetch', read'⟩, same⟩

theorem embeds (h : source.Shuffled other) (step : source.Embeds name target) :
    other.Embeds name target := by
  obtain ⟨definition, holds, declared, mem, rfl⟩ := step
  obtain ⟨definition', holds', same⟩ := h.exists_holds holds
  exact ⟨definition', holds', declared, same.mem_targets_iff.1 mem, by rw [h.canonical_eq]⟩

theorem regular (h : source.Shuffled other) (regular : source.Regular) : other.Regular := by
  intro name definition holds declared mem
  obtain ⟨definition', holds', same⟩ := h.symm.exists_holds holds
  exact h.settled (regular name definition' holds' declared (same.mem_targets_iff.1 mem))

theorem embeds_eq (h : source.Shuffled other) : other.Embeds = source.Embeds := by
  funext name target
  exact propext ⟨h.symm.embeds, h.embeds⟩

theorem complete (h : source.Shuffled other) (complete : source.Complete name) :
    other.Complete name := by
  intro reached path
  rw [h.embeds_eq] at path
  obtain ⟨definition, holds⟩ := complete reached path
  obtain ⟨definition', holds', -⟩ := h.exists_holds holds
  exact ⟨definition', holds'⟩

theorem reachesCycle_iff (h : source.Shuffled other) :
    other.ReachesCycle name ↔ source.ReachesCycle name := by
  rw [ReachesCycle, ReachesCycle, h.embeds_eq]

end Source.Shuffled

namespace Registry

variable {registry other : Registry}

theorem exists_fetch_of_shuffled (h : List.Forall₂ (fun entry entry' => entry.1 = entry'.1 ∧
      ShuffledDocument entry.2 entry'.2) registry.documents other.documents) {name : String}
    {document : Json} (found : registry.source.fetch name = .ok (some document)) :
    ∃ document', other.source.fetch name = .ok (some document') ∧
      ShuffledDocument document document' := by
  have related := rel_lookup (R := fun _ => ShuffledDocument) h name
  rw [Except.ok.inj found] at related
  generalize listed : other.documents.lookup name = found' at related
  cases related with
  | some shuffled => exact ⟨_, congrArg Except.ok listed, shuffled⟩

/-- Registries of the same names, whose documents agree but for the order of fields, are sources
that agree so. -/
theorem shuffled_source (h : List.Forall₂ (fun entry entry' => entry.1 = entry'.1 ∧
      ShuffledDocument entry.2 entry'.2) registry.documents other.documents) :
    registry.source.Shuffled other.source where
  extension := rfl
  forth := exists_fetch_of_shuffled h
  back := exists_fetch_of_shuffled (h.flip.imp fun _ _ both => ⟨both.1.symm, both.2.symm⟩)

end Registry

end DocModel
