import Mathlib.Logic.Function.Iterate
import DocModel.Proofs.Property
import DocModel.Proofs.Source
import DocModel.Proofs.Validator.Accept
import DocModel.Proofs.Validator.Occurs

namespace DocModel

namespace Field

def required : Field → Bool
  | property p => p.required
  | relation r => r.required

def default : Field → Option Json
  | property p => p.default
  | relation r => r.default

/-- The values of a field that holds no documents; the store looks after its relations. -/
def Admits : Field → Json → Prop
  | property p, value => p.Admits value
  | relation _, _ => True

@[simp] theorem head_name (field : Field) (name : String) : (field.head name).name = name := by
  cases field <;> rfl

@[simp] theorem head_required (field : Field) (name : String) :
    (field.head name).required = field.required := by
  cases field <;> rfl

@[simp] theorem head_default (field : Field) (name : String) :
    (field.head name).default = field.default := by
  cases field <;> rfl

theorem applyAll_checks_iff {field : Field} {value : Json} :
    (∃ out, Check.applyAll field.checks value = .ok out) ↔ field.Admits value := by
  cases field with
  | property p => exact p.applyAll_checks_iff
  | relation r => exact iff_of_true ⟨value, rfl⟩ trivial

end Field

mutual

/-- A definition together with the definitions that its fields embed. -/
inductive Schema
  | mk (definition : Definition) (fields : List SchemaField)

inductive SchemaField
  | plain (name : String) (field : Field)
  | embedded (name : String) (field : Field) (embedding : Embedding) (target : Schema)

end

namespace SchemaField

def name : SchemaField → String
  | plain name _ | embedded name _ _ _ => name

def field : SchemaField → Field
  | plain _ field | embedded _ field _ _ => field

def declared (field : SchemaField) : String × Field := (field.name, field.field)

end SchemaField

namespace Schema

def definition : Schema → Definition
  | mk definition _ => definition

def fields : Schema → List SchemaField
  | mk _ fields => fields

end Schema

/-- The definition that a declared name can be answered with; every look at a name may strip one
more extension. -/
def Source.Answers (source : Source) (declared : String) (definition : Definition) : Prop :=
  ∃ strips, source.Holds (source.canonical^[strips + 1] declared) definition

/-- The fields are those of the definition, and what they embed is what the source answers their
declared names with. -/
inductive Schema.Resolves (source : Source) : Schema → Prop
  | intro {definition : Definition} {fields : List SchemaField}
    (declared : fields.map SchemaField.declared = definition.fields)
    (plain : ∀ name field, .plain name field ∈ fields → field.embeds? = none)
    (embedded : ∀ name field embedding target, .embedded name field embedding target ∈ fields →
      ∃ declared, field.embeds? = some (embedding, declared) ∧
        source.Answers declared target.definition)
    (nested : ∀ name field embedding target, .embedded name field embedding target ∈ fields →
      Resolves source target) :
    Resolves source (.mk definition fields)

/-- A field is declared, and what it embeds is answered, as in a resolved definition. -/
def SchemaField.Resolved (source : Source) : SchemaField → Prop
  | .plain _ field => field.embeds? = none
  | .embedded _ field embedding target =>
    (∃ declared, field.embeds? = some (embedding, declared) ∧
      source.Answers declared target.definition) ∧ target.Resolves source

theorem Schema.Resolves.of_fields {source : Source} {definition : Definition}
    {fields : List SchemaField} (declared : fields.map SchemaField.declared = definition.fields)
    (resolved : ∀ field ∈ fields, field.Resolved source) :
    (Schema.mk definition fields).Resolves source :=
  .intro declared (fun _ _ mem => resolved _ mem) (fun _ _ _ _ mem => (resolved _ mem).1)
    (fun _ _ _ _ mem => (resolved _ mem).2)

mutual

/-- A document conforms to a definition if it is an object that meets every declared field and,
where only known keys are allowed, has no others. -/
inductive Conforms (strict : Bool) : Schema → Json → Prop
  | intro {definition : Definition} {fields : List SchemaField} {members : Json.Members}
    (met : ∀ field ∈ fields, Met strict field members)
    (known : strict → ∀ key ∈ members.keys, key ∈ definition.fieldNames) :
    Conforms strict (.mk definition fields) (.obj members)

/-- A field is met by its value, by its default in the absence of one, or, if it is not required, by
the absence of both. -/
inductive Met (strict : Bool) : SchemaField → Json.Members → Prop
  | present {field : SchemaField} {members : Json.Members} {value : Json}
    (found : members.get? field.name = some value) (good : Satisfies strict field value) :
    Met strict field members
  | filled {field : SchemaField} {members : Json.Members} {value : Json}
    (absent : members.get? field.name = none) (default : field.field.default = some value)
    (good : Satisfies strict field value) :
    Met strict field members
  | omitted {field : SchemaField} {members : Json.Members}
    (absent : members.get? field.name = none) (undefaulted : field.field.default = none)
    (optional : field.field.required = false) :
    Met strict field members

/-- The values of a field: `null` unless it is required, those that it admits, or the documents that
it embeds, be it one, a list, a single one in place of a list, or a map. -/
inductive Satisfies (strict : Bool) : SchemaField → Json → Prop
  | null {field : SchemaField} (optional : field.field.required = false) :
    Satisfies strict field .null
  | plain {name : String} {field : Field} {value : Json} (admits : field.Admits value) :
    Satisfies strict (.plain name field) value
  | one {name : String} {field : Field} {target : Schema} {document : Json}
    (conforms : Conforms strict target document) :
    Satisfies strict (.embedded name field .one target) document
  | many {name : String} {field : Field} {target : Schema} {items : List Json}
    (conform : ∀ item ∈ items, Conforms strict target item) :
    Satisfies strict (.embedded name field .many target) (.arr items)
  | single {name : String} {field : Field} {target : Schema} {document : Json}
    (conforms : Conforms strict target document) :
    Satisfies strict (.embedded name field .many target) document
  | keyed {name : String} {field : Field} {model : Option String} {target : Schema}
    {entries : Json.Members} (conform : ∀ entry ∈ entries, Conforms strict target entry.2) :
    Satisfies strict (.embedded name field (.keyed model) target) (.obj entries)

end

mutual

/-- The validator that a definition and what it embeds are compiled to. -/
def Schema.validator (strict : Bool) (schema : Schema) : Validator :=
  match schema with
  | .mk definition fields => .mk definition.name strict (fields.map (SchemaField.rule strict))

def SchemaField.rule (strict : Bool) (field : SchemaField) : FieldRule :=
  match field with
  | .plain name field => .value (field.head name) field.checks
  | .embedded name field embedding target =>
    .embedded (field.head name) embedding (target.validator strict)

end

variable {strict : Bool} {schema target : Schema} {field : SchemaField} {source : Source}

theorem Conforms.isObject {document : Json} (h : Conforms strict schema document) :
    ∃ members, document = .obj members := by
  cases h with
  | intro => exact ⟨_, rfl⟩

theorem SchemaField.rule_head : (field.rule strict).head = field.field.head field.name := by
  cases field <;> rw [rule] <;> rfl

theorem null_or_iff {value : Json} {required : Bool} {action : Checked Json} {P : Prop}
    (h : (∃ out, action = .ok out) ↔ P) :
    (∃ out, (if value.isNull && !required then .ok value else action) = .ok out) ↔
      (value = .null ∧ required = false) ∨ P := by
  cases required <;> cases value <;> simp [Json.isNull, h]

theorem satisfies_plain_iff {name : String} {field : Field} {value : Json} :
    Satisfies strict (.plain name field) value ↔
      (value = .null ∧ field.required = false) ∨ field.Admits value := by
  constructor
  · intro satisfied
    cases satisfied with
    | null optional => exact .inl ⟨rfl, optional⟩
    | plain admits => exact .inr admits
  · intro either
    rcases either with ⟨rfl, optional⟩ | admits
    · exact .null optional
    · exact .plain admits

theorem satisfies_one_iff {name : String} {field : Field} {value : Json} :
    Satisfies strict (.embedded name field .one target) value ↔
      (value = .null ∧ field.required = false) ∨
        ∃ members, value = .obj members ∧ Conforms strict target value := by
  constructor
  · intro satisfied
    cases satisfied with
    | null optional => exact .inl ⟨rfl, optional⟩
    | one conforms =>
      obtain ⟨members, rfl⟩ := conforms.isObject
      exact .inr ⟨members, rfl, conforms⟩
  · intro either
    rcases either with ⟨rfl, optional⟩ | ⟨members, -, conforms⟩
    · exact .null optional
    · exact .one conforms

theorem satisfies_many_iff {name : String} {field : Field} {value : Json} :
    Satisfies strict (.embedded name field .many target) value ↔
      (value = .null ∧ field.required = false) ∨
        (∃ items, value = .arr items ∧ ∀ item ∈ items, Conforms strict target item) ∨
          ∃ members, value = .obj members ∧ Conforms strict target value := by
  constructor
  · intro satisfied
    cases satisfied with
    | null optional => exact .inl ⟨rfl, optional⟩
    | many conform => exact .inr (.inl ⟨_, rfl, conform⟩)
    | single conforms =>
      obtain ⟨members, rfl⟩ := conforms.isObject
      exact .inr (.inr ⟨members, rfl, conforms⟩)
  · intro either
    rcases either with ⟨rfl, optional⟩ | ⟨items, rfl, conform⟩ | ⟨members, -, conforms⟩
    · exact .null optional
    · exact .many conform
    · exact .single conforms

theorem satisfies_keyed_iff {name : String} {field : Field} {model : Option String}
    {value : Json} :
    Satisfies strict (.embedded name field (.keyed model) target) value ↔
      (value = .null ∧ field.required = false) ∨
        ∃ entries, value = .obj entries ∧ ∀ entry ∈ entries, Conforms strict target entry.2 := by
  constructor
  · intro satisfied
    cases satisfied with
    | null optional => exact .inl ⟨rfl, optional⟩
    | keyed conform => exact .inr ⟨_, rfl, conform⟩
  · intro either
    rcases either with ⟨rfl, optional⟩ | ⟨entries, rfl, conform⟩
    · exact .null optional
    · exact .keyed conform

theorem SchemaField.check_iff
    (sound : ∀ name declared embedding target, field = .embedded name declared embedding target →
      ∀ location document,
        (∃ out, (target.validator strict).check location document = .ok out) ↔
          Conforms strict target document)
    (location : Location) (value : Json) :
    (∃ out, (field.rule strict).check location value = .ok out) ↔ Satisfies strict field value := by
  cases field with
  | plain name field =>
    have plain : (∃ out, (Check.applyAll field.checks value).mapError
        (fun problem => [⟨location, problem⟩]) = (.ok out : Checked Json)) ↔
          field.Admits value := by
      simp only [mapError_eq_ok, Field.applyAll_checks_iff]
    rw [rule, FieldRule.check, Field.head_required, null_or_iff plain, satisfies_plain_iff]
  | embedded name field embedding target =>
    have nested := sound name field embedding target rfl
    rw [rule, FieldRule.check, Field.head_required]
    cases embedding with
    | one =>
      have one := Embedding.check_one_iff nested location value
      rw [null_or_iff one, satisfies_one_iff]
    | many =>
      have many := Embedding.check_many_iff nested location value
      rw [null_or_iff many, satisfies_many_iff]
    | keyed model =>
      have keyed := Embedding.check_keyed_iff nested model location value
      rw [null_or_iff keyed, satisfies_keyed_iff]

theorem SchemaField.fits_iff {Good : Json → Prop} {members : Json.Members}
    (good : ∀ value, Good value ↔ Satisfies strict field value) :
    (field.rule strict).head.Fits Good members ↔ Met strict field members := by
  simp only [FieldHead.Fits, good, rule_head, Field.head_name, Field.head_default,
    Field.head_required]
  constructor
  · intro fits
    rcases fits with ⟨value, found, good⟩ | ⟨absent, filled | omitted⟩
    · exact .present found good
    · obtain ⟨value, default, good⟩ := filled
      exact .filled absent default good
    · exact .omitted absent omitted.1 omitted.2
  · intro met
    cases met with
    | present found good => exact .inl ⟨_, found, good⟩
    | filled absent default good => exact .inr ⟨absent, .inl ⟨_, default, good⟩⟩
    | omitted absent undefaulted optional => exact .inr ⟨absent, .inr ⟨undefaulted, optional⟩⟩

theorem SchemaField.rule_name (fields : List SchemaField) :
    (fields.map (SchemaField.rule strict)).map FieldRule.name =
      (fields.map SchemaField.declared).map (·.1) := by
  simp only [List.map_map]
  refine List.map_congr_left fun field _ => ?_
  simp [FieldRule.name, rule_head, declared]

/-- The validator of a definition passes the documents that conform to it, and no others. -/
theorem Schema.Resolves.check_iff (h : schema.Resolves source) (location : Location)
    (document : Json) :
    (∃ out, (schema.validator strict).check location document = .ok out) ↔
      Conforms strict schema document := by
  induction h generalizing location document with
  | @intro definition fields declared plain embedded nested ih =>
    have sound : ∀ field ∈ fields, ∀ location value,
        (∃ out, (field.rule strict).check location value = .ok out) ↔
          Satisfies strict field value := by
      intro field mem
      apply SchemaField.check_iff
      intro name declared embedding target same
      subst same
      exact ih name declared embedding target mem
    have names : (fields.map (SchemaField.rule strict)).map FieldRule.name =
        definition.fieldNames := by
      rw [SchemaField.rule_name, declared, definition.fields_names]
    have steady : ∀ rule ∈ fields.map (SchemaField.rule strict), ∀ location value,
        (∃ out, rule.check location value = .ok out) ↔ ∃ out, rule.check [] value = .ok out := by
      intro rule mapped location value
      obtain ⟨field, mem, rfl⟩ := List.mem_map.1 mapped
      rw [sound field mem, sound field mem]
    have met : ∀ members, (∀ rule ∈ fields.map (SchemaField.rule strict),
        rule.head.Fits (fun value => ∃ out, rule.check [] value = .ok out) members) ↔
          ∀ field ∈ fields, Met strict field members := by
      intro members
      rw [List.forall_mem_map]
      exact forall₂_congr fun field mem => SchemaField.fits_iff (sound field mem [])
    rw [Schema.validator, Validator.check_iff (names ▸ definition.nodup) steady]
    constructor
    · intro passed
      obtain ⟨members, rfl, fits, known⟩ := passed
      exact .intro ((met members).1 fits) (names ▸ known)
    · intro conforms
      cases conforms with
      | intro fits known => exact ⟨_, rfl, (met _).2 fits, names ▸ known⟩

theorem Schema.Resolves.orderly (h : schema.Resolves source) :
    (schema.validator strict).Orderly := by
  induction h with
  | @intro definition fields declared plain embedded nested ih =>
    rw [Schema.validator]
    constructor
    · rw [SchemaField.rule_name, declared]
      exact definition.nodup_fields
    · intro head embedding nested rule
      obtain ⟨field, mem, same⟩ := List.mem_map.1 rule
      cases field with
      | plain name field =>
        rw [SchemaField.rule] at same
        cases same
      | embedded name field embedding target =>
        rw [SchemaField.rule] at same
        cases same
        exact ih name field _ target mem

theorem Source.Answers.holds {declared : String} {definition : Definition}
    (h : source.Answers declared definition) (settled : source.Settled declared) :
    source.Holds (source.canonical declared) definition := by
  obtain ⟨strips, holds⟩ := h
  rw [Function.iterate_succ_apply] at holds
  rwa [Function.iterate_fixed settled] at holds

theorem eq_of_map_eq {α β : Type} {f : α → β} {items others : List α}
    (h : items.map f = others.map f) (same : ∀ a ∈ items, ∀ b ∈ others, f a = f b → a = b) :
    items = others := by
  induction items generalizing others with
  | nil => exact (List.map_eq_nil_iff.1 h.symm).symm
  | cons item items ih =>
    cases others with
    | nil => cases h
    | cons other others =>
      rw [List.map_cons, List.map_cons, List.cons.injEq] at h
      rw [same item List.mem_cons_self other List.mem_cons_self h.1, ih h.2]
      intro a mem b mem'
      exact same a (List.mem_cons_of_mem _ mem) b (List.mem_cons_of_mem _ mem')

theorem Schema.Resolves.resolved (h : schema.Resolves source) (mem : field ∈ schema.fields) :
    field.Resolved source := by
  cases h with
  | intro declared plain embedded nested =>
    cases field with
    | plain name field => exact plain _ _ mem
    | embedded name field embedding target =>
      exact ⟨embedded _ _ _ _ mem, nested _ _ _ _ mem⟩

/-- Two fields that are resolved and declared alike are one plain field, or hold their documents
alike and answer one declared name. -/
theorem SchemaField.Resolved.alike {field field' : SchemaField} {other : Source}
    (h : field.Resolved source) (h' : field'.Resolved other)
    (same : field.declared = field'.declared) :
    (∃ name declaration, field = .plain name declaration ∧ field' = .plain name declaration) ∨
      ∃ name declaration embedding target target' declared,
        field = .embedded name declaration embedding target ∧
        field' = .embedded name declaration embedding target' ∧
        declaration.embeds? = some (embedding, declared) ∧
        source.Answers declared target.definition ∧ other.Answers declared target'.definition := by
  cases field with
  | plain name declaration =>
    cases field' with
    | plain name' declaration' =>
      cases same
      exact .inl ⟨_, _, rfl, rfl⟩
    | embedded name' declaration' embedding target =>
      cases same
      obtain ⟨⟨declared, embeds, -⟩, -⟩ := h'
      rw [show declaration.embeds? = none from h] at embeds
      cases embeds
  | embedded name declaration embedding target =>
    obtain ⟨⟨declared, embeds, answers⟩, -⟩ := h
    cases field' with
    | plain name' declaration' =>
      cases same
      rw [show declaration.embeds? = none from h'] at embeds
      cases embeds
    | embedded name' declaration' embedding' target' =>
      cases same
      obtain ⟨⟨declared', embeds', answers'⟩, -⟩ := h'
      rw [embeds] at embeds'
      cases embeds'
      exact .inr ⟨_, _, _, _, _, declared, rfl, rfl, embeds, answers, answers'⟩

/-- Where no name has a second extension, a definition and the source leave no choice of what it
embeds. -/
theorem Schema.Resolves.unique {other : Schema} (regular : source.Regular)
    (settled : ∀ declared ∈ schema.definition.targets, source.Settled declared)
    (h : schema.Resolves source) (h' : other.Resolves source)
    (same : schema.definition = other.definition) : schema = other := by
  induction h generalizing other with
  | @intro definition fields declared plain embedded nested ih =>
    have whole : (Schema.mk definition fields).Resolves source :=
      .intro declared plain embedded nested
    obtain ⟨definition', fields'⟩ := other
    cases h' with
    | intro declared' plain' embedded' nested' =>
      have whole' : (Schema.mk definition' fields').Resolves source :=
        .intro declared' plain' embedded' nested'
      cases same
      congr 1
      apply eq_of_map_eq (declared.trans declared'.symm)
      intro field mem field' mem' same
      obtain ⟨name, declaration, rfl, rfl⟩ |
        ⟨name, declaration, embedding, target, target', model, rfl, rfl, embeds, answers,
          answers'⟩ :=
          (whole.resolved mem).alike (whole'.resolved mem') same
      · rfl
      · have listed : model ∈ definition.targets := by
          rw [Definition.mem_targets, ← declared]
          exact ⟨_, _, _, List.mem_map_of_mem mem, embeds⟩
        have holds := answers.holds (settled model listed)
        have holds' := answers'.holds (settled model listed)
        congr 1
        exact ih _ _ _ _ mem (regular _ _ holds) (nested' _ _ _ _ mem') (holds.unique holds')

end DocModel
