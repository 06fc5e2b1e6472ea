import DocModel.Proofs.Compile.Resolved
import DocModel.Proofs.Validator.Inversion

namespace DocModel

/-- The validator needs the fields that the definition lists as required, and no others that have no
default: to leave one of these out of a document costs its own member and nothing else. -/
structure Definition.TellsNeeds (definition : Definition) (validator : Validator) : Prop where
  refuses : ∀ (location : Location) (members : Json.Members),
    ∀ field ∈ definition.requiredFields, field ∉ members.keys →
      ∃ violations, validator.check location (.obj members) = .error violations
  spares : ∀ (location : Location) (members : Json.Members) (checked : Json)
    (field : String) (declaration : Field),
      validator.check location (.obj members) = .ok checked →
      (field, declaration) ∈ definition.fields → declaration.default = none →
      field ∉ definition.requiredFields →
        ∃ after : Json.Members, checked = .obj after ∧
          validator.check location (.obj (members.erase field)) = .ok (.obj (after.erase field))

/-- The accessor looks at properties and relations in the same way, in declared order. -/
theorem Definition.requiredFields_eq (definition : Definition) :
    definition.requiredFields =
      (definition.fields.filter fun (_, field) => field.required && field.default.isNone).map
        (·.1) := by
  simp [requiredFields, fields, Field.required, Field.default, List.filter_map, Function.comp_def]

theorem Definition.mem_requiredFields {definition : Definition} {field : String} :
    field ∈ definition.requiredFields ↔
      ∃ declaration, (field, declaration) ∈ definition.fields ∧ declaration.required = true ∧
        declaration.default = none := by
  simp [requiredFields_eq]

theorem Definition.declaration_unique {definition : Definition} {name : String}
    {field other : Field} (mem : (name, field) ∈ definition.fields)
    (mem' : (name, other) ∈ definition.fields) : field = other := by
  have same := List.inj_on_of_nodup_map definition.nodup_fields mem mem' rfl
  exact (Prod.mk.inj same).2

section

variable {head : FieldHead} {check : Json → Checked Json} {rules : List FieldRule}
  {location : Location} {members after : Json.Members} {field : String}

theorem FieldHead.fill_erase_ne (apart : head.name ≠ field)
    (h : head.fill check location members = .ok after) :
    head.fill check location (members.erase field) = .ok (after.erase field) := by
  have same : head.given? (members.erase field) = head.given? members :=
    given?_congr (Json.Members.get?_erase_ne apart)
  obtain ⟨value, out, given, passed, rfl⟩ | ⟨missing, optional, rfl⟩ := fill_eq_ok.1 h
  · exact fill_eq_ok.2 (.inl ⟨value, out, same.trans given, passed,
      Json.Members.erase_insert_ne apart⟩)
  · exact fill_eq_ok.2 (.inr ⟨same.trans missing, optional, rfl⟩)

/-- The filling of a field that is neither required nor has a default takes it as absent too. -/
theorem FieldHead.fill_erase_self (undefaulted : head.default = none)
    (optional : head.required = false) (h : head.fill check location members = .ok after) :
    head.fill check location (members.erase head.name) = .ok (after.erase head.name) := by
  have missing : head.given? (members.erase head.name) = none :=
    given?_eq_none_iff.2 ⟨Json.Members.get?_erase_self, undefaulted⟩
  refine fill_eq_ok.2 (.inr ⟨missing, optional, ?_⟩)
  obtain ⟨value, out, -, -, rfl⟩ | ⟨-, -, rfl⟩ := fill_eq_ok.1 h
  · exact Json.Members.erase_insert_self
  · rfl

theorem checkRules_erase
    (spared : ∀ rule ∈ rules, rule.name = field →
      rule.head.default = none ∧ rule.head.required = false)
    (h : checkRules rules location members = .ok after) :
    checkRules rules location (members.erase field) = .ok (after.erase field) := by
  induction rules generalizing members with
  | nil =>
    cases h
    rfl
  | cons rule rules ih =>
    rw [List.forall_mem_cons] at spared
    obtain ⟨between, filled, rest⟩ := checkRules_cons_eq_ok.1 h
    refine checkRules_cons_eq_ok.2 ⟨between.erase field, ?_, ih spared.2 rest⟩
    by_cases own : rule.name = field
    · obtain ⟨undefaulted, optional⟩ := spared.1 own
      subst own
      exact FieldHead.fill_erase_self undefaulted optional filled
    · exact FieldHead.fill_erase_ne own filled

theorem Validator.check_erase {validator : Validator} {checked : Json}
    (spared : ∀ rule ∈ validator.rules, rule.name = field →
      rule.head.default = none ∧ rule.head.required = false)
    (h : validator.check location (.obj members) = .ok checked) :
    ∃ after : Json.Members, checked = .obj after ∧
      validator.check location (.obj (members.erase field)) = .ok (.obj (after.erase field)) := by
  cases validator with
  | mk typeName rejectsUnknown rules =>
    obtain ⟨after, passed, known, rfl⟩ := check_obj_eq_ok.1 h
    refine ⟨after, rfl, check_obj_eq_ok.2 ⟨_, checkRules_erase spared passed, ?_, rfl⟩⟩
    intro strict key mem
    obtain ⟨member, listed, rfl⟩ := List.mem_map.1 mem
    exact known strict _ (List.mem_map_of_mem (List.mem_filter.1 listed).1)

end

section

variable {schema : Schema} {source : Source} {strict : Bool}

theorem Schema.Resolves.exists_declared (h : schema.Resolves source) {rule : FieldRule}
    (mem : rule ∈ (schema.validator strict).rules) :
    ∃ declaration, (rule.name, declaration) ∈ schema.definition.fields ∧
      rule.head = declaration.head rule.name := by
  cases h with
  | @intro definition fields declared plain embedded nested =>
    rw [Schema.validator] at mem
    obtain ⟨field, listed, rfl⟩ := List.mem_map.1 mem
    have name : (field.rule strict).name = field.name := by
      rw [FieldRule.name, SchemaField.rule_head, Field.head_name]
    refine ⟨field.field, ?_, ?_⟩
    · rw [name, Schema.definition, ← declared]
      exact List.mem_map_of_mem listed
    · rw [name, SchemaField.rule_head]

theorem Schema.Resolves.tellsNeeds (h : schema.Resolves source) :
    schema.definition.TellsNeeds (schema.validator strict) where
  refuses := by
    intro location members field listed absent
    cases result : (schema.validator strict).check location (.obj members) with
    | error violations => exact ⟨violations, rfl⟩
    | ok checked =>
      exfalso
      obtain ⟨declaration, declared, required, undefaulted⟩ :=
        Definition.mem_requiredFields.1 listed
      have conforms := (h.check_iff location _).1 ⟨checked, result⟩
      cases h with
      | @intro definition fields same plain embedded nested =>
        rw [Schema.definition, ← same] at declared
        obtain ⟨own, mem, same⟩ := List.mem_map.1 declared
        cases same
        cases conforms with
        | intro met known =>
          cases met own mem with
          | present found good =>
            exact absent (Json.Members.get?_isSome_iff.1 (Option.isSome_iff_exists.2 ⟨_, found⟩))
          | filled missing default good =>
            rw [undefaulted] at default
            cases default
          | omitted missing undefaulted optional =>
            rw [required] at optional
            cases optional
  spares := by
    intro location members checked field declaration passed declared undefaulted unlisted
    refine Validator.check_erase ?_ passed
    intro rule mem own
    subst own
    obtain ⟨other, declared', head⟩ := h.exists_declared mem
    obtain rfl := Definition.declaration_unique declared declared'
    rw [head, Field.head_default, Field.head_required]
    refine ⟨undefaulted, ?_⟩
    rw [← Bool.not_eq_true]
    intro required
    exact unlisted (Definition.mem_requiredFields.2 ⟨declaration, declared, required, undefaulted⟩)

end

namespace Compiler

/-- The fields that a definition lists as required are those that its validator needs, whether it
is compiled under its name or given as such. -/
theorem required_fields_needed (compiler : Compiler) (built : Nat) :
    (∀ requested compiled, (compiler.compile built requested).result = .ok compiled →
      ∃ definition, (compiler.load (compiler.canonical requested)).1 = .ok definition ∧
        definition.TellsNeeds compiled.validator) ∧
    ∀ definition compiled, (compiler.compileDefinition built definition).result = .ok compiled →
      definition.TellsNeeds compiled.validator := by
  constructor
  · intro requested compiled result
    obtain ⟨schema, load, compiles⟩ := compiles_of_compile result
    rw [compiles.validator_eq]
    exact ⟨schema.definition, load, compiles.resolves.tellsNeeds⟩
  · intro definition compiled result
    obtain ⟨schema, same, compiles⟩ := compiles_of_compileDefinition result
    rw [compiles.validator_eq, ← same]
    exact compiles.resolves.tellsNeeds

/-- Members of a club, of whom the name and a sponsor are required; the level has a default and the
house is left to the store. -/
def clubs : Compiler where
  source := Registry.source ⟨[
    ("Member", .obj [
      ("properties", .obj [
        ("name", .obj [("type", .str "string"), ("required", .bool true), ("default", .null)]),
        ("level", .obj [("type", .str "int"), ("required", .bool true),
          ("default", .num (.int 1))]),
        ("motto", .obj [("type", .str "string")])]),
      ("relations", .obj [
        ("house", .obj [("type", .str "belongsTo"), ("model", .str "House"),
          ("required", .bool true)]),
        ("notes", .obj [("type", .str "embedsMany"), ("model", .str "Note")])])]),
    ("Note", .obj [])]⟩

/-- A member, whose notes are said after the house. -/
def clubMember : Json.Members :=
  [("motto", .str "on"), ("house", .num (.int 7)), ("notes", .arr [.obj []]), ("name", .str "Ada")]

/-- The member with the level that is filled in. -/
def rankedMember : Json.Members := clubMember ++ [("level", .num (.int 1))]

theorem required_fields_needed_clubs :
    ∃ (definition : Definition) (validator : Validator), (clubs.load "Member").1 = .ok definition ∧
      definition.requiredFields = ["name", "house"] ∧
      (∃ violations, validator.check [] (.obj (clubMember.erase "house")) = .error violations) ∧
      validator.check [] (.obj clubMember) = .ok (.obj rankedMember) ∧
      validator.check [] (.obj (clubMember.erase "notes")) =
        .ok (.obj (rankedMember.erase "notes")) := by
  have checked : (clubs.compile 0 "Member").result.toOption.any fun compiled =>
      compiled.validator.check [] (.obj clubMember) = .ok (.obj rankedMember) := by
    decide +kernel
  have loaded : (clubs.load "Member").1.toOption.any fun definition =>
      decide (definition.requiredFields = ["name", "house"]) &&
        definition.relations.any fun named =>
          named.1 == "notes" && named.2.default == none := by
    decide +kernel
  have canonical : clubs.canonical "Member" = "Member" := by decide +kernel
  obtain ⟨compiled, result, tested⟩ := exists_of_any_toOption checked
  have passed := of_decide_eq_true tested
  obtain ⟨definition, load, tells⟩ := (required_fields_needed clubs 0).1 "Member" compiled result
  rw [canonical] at load
  rw [load] at loaded
  simp only [Except.toOption, Option.any_some, Bool.and_eq_true, decide_eq_true_eq,
    List.any_eq_true, beq_iff_eq] at loaded
  obtain ⟨required, ⟨name, notes⟩, declared, rfl, undefaulted⟩ := loaded
  have mem : ("notes", Field.relation notes) ∈ definition.fields :=
    List.mem_append_right _ (List.mem_map_of_mem declared)
  refine ⟨definition, compiled.validator, load, required, ?_, passed, ?_⟩
  · refine tells.refuses [] _ "house" ?_ (by decide)
    rw [required]
    decide
  · obtain ⟨after, same, spared⟩ := tells.spares [] clubMember _ "notes" _ passed mem undefaulted
      (by rw [required]; decide)
    cases same
    exact spared

end Compiler

end DocModel
