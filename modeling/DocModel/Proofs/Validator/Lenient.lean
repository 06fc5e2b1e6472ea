import DocModel.Proofs.Clean.Service
import DocModel.Proofs.Validator.Anywhere
import DocModel.Proofs.Validator.Located

namespace DocModel

mutual

/-- The same validator, but unknown keys pass, in embedded documents too. -/
def Validator.lenient (validator : Validator) : Validator :=
  match validator with
  | .mk typeName _ rules => .mk typeName false (lenientRules rules)
termination_by structural validator

def FieldRule.lenient (rule : FieldRule) : FieldRule :=
  match rule with
  | .value head checks => .value head checks
  | .embedded head embedding nested => .embedded head embedding nested.lenient
termination_by structural rule

def lenientRules (rules : List FieldRule) : List FieldRule :=
  match rules with
  | [] => []
  | rule :: rules => rule.lenient :: lenientRules rules
termination_by structural rules

end

theorem lenientRules_eq_map (rules : List FieldRule) :
    lenientRules rules = rules.map FieldRule.lenient := by
  induction rules with
  | nil => rfl
  | cons rule rules ih => rw [lenientRules, ih, List.map_cons]

@[simp] theorem FieldRule.head_lenient (rule : FieldRule) : rule.lenient.head = rule.head := by
  cases rule <;> rfl

@[simp] theorem FieldRule.name_lenient (rule : FieldRule) : rule.lenient.name = rule.name := by
  rw [name, head_lenient, name]

theorem names_lenientRules (rules : List FieldRule) :
    (lenientRules rules).map FieldRule.name = rules.map FieldRule.name := by
  rw [lenientRules_eq_map, List.map_map]
  exact List.map_congr_left fun rule _ => rule.name_lenient

namespace Validator

variable {validator : Validator}

@[simp] theorem typeName_lenient (validator : Validator) :
    validator.lenient.typeName = validator.typeName := by
  cases validator
  rfl

theorem lenient_mem {rule : FieldRule} (mem : rule ∈ validator.rules) :
    rule.lenient ∈ validator.lenient.rules := by
  cases validator with
  | mk typeName rejectsUnknown declared =>
    change rule.lenient ∈ lenientRules declared
    rw [lenientRules_eq_map]
    exact List.mem_map_of_mem mem

theorem Orderly.lenient (h : validator.Orderly) : validator.lenient.Orderly := by
  induction h with
  | @intro typeName rejectsUnknown rules nodup nested ih =>
    rw [Validator.lenient]
    constructor
    · rwa [names_lenientRules]
    · intro head embedding nested mem
      rw [lenientRules_eq_map] at mem
      obtain ⟨rule, declared, same⟩ := List.mem_map.1 mem
      cases rule with
      | value head checks =>
        rw [FieldRule.lenient] at same
        cases same
      | embedded head embedding target =>
        rw [FieldRule.lenient] at same
        cases same
        exact ih _ _ _ declared

end Validator

section

variable {strict lenient : Location → Json → Checked Json}
  (passes : ∀ location value out, strict location value = .ok out →
    lenient location value = .ok out)

include passes

theorem Embedding.checkItems_mono {location : Location} {index : Nat} {items outs : List Json}
    (h : checkItems strict location index items = .ok outs) :
    checkItems lenient location index items = .ok outs := by
  induction items generalizing index outs with
  | nil => exact h
  | cons item items ih =>
    obtain ⟨out, rest, first, others, rfl⟩ := checkItems_cons_eq_ok.1 h
    exact checkItems_cons_eq_ok.2 ⟨out, rest, passes _ _ _ first, ih others, rfl⟩

theorem Embedding.checkEntries_mono {location : Location} {entries outs : Json.Members}
    (h : checkEntries strict location entries = .ok outs) :
    checkEntries lenient location entries = .ok outs := by
  induction entries generalizing outs with
  | nil => exact h
  | cons entry entries ih =>
    obtain ⟨out, rest, first, others, rfl⟩ := checkEntries_cons_eq_ok.1 h
    exact checkEntries_cons_eq_ok.2 ⟨out, rest, passes _ _ _ first, ih others, rfl⟩

theorem Embedding.check_mono {embedding : Embedding} {location : Location} {value out : Json}
    (h : embedding.check strict location value = .ok out) :
    embedding.check lenient location value = .ok out := by
  cases embedding with
  | one =>
    cases value with
    | obj members => exact passes _ _ _ h
    | _ => cases h
  | many =>
    cases value with
    | obj members => exact passes _ _ _ h
    | arr items =>
      obtain ⟨outs, checked, rfl⟩ := map_eq_ok.1 h
      exact map_eq_ok.2 ⟨outs, checkItems_mono passes checked, rfl⟩
    | _ => cases h
  | keyed model =>
    cases value with
    | obj entries =>
      obtain ⟨outs, checked, rfl⟩ := map_eq_ok.1 h
      exact map_eq_ok.2 ⟨outs, checkEntries_mono passes checked, rfl⟩
    | _ => cases h

end

mutual

theorem Validator.check_lenient {validator : Validator} {location : Location} {document out : Json}
    (h : validator.check location document = .ok out) :
    validator.lenient.check location document = .ok out := by
  match validator with
  | .mk typeName rejectsUnknown rules =>
    cases document with
    | obj members =>
      obtain ⟨after, checked, -, rfl⟩ := Validator.check_obj_eq_ok.1 h
      rw [Validator.lenient]
      exact Validator.check_obj_eq_ok.2 ⟨after, checkRules_lenient checked, by simp, rfl⟩
    | _ => cases h

theorem FieldRule.check_lenient {rule : FieldRule} {location : Location} {value out : Json}
    (h : rule.check location value = .ok out) : rule.lenient.check location value = .ok out := by
  match rule with
  | .value head checks => exact h
  | .embedded head embedding nested =>
    rw [FieldRule.check] at h
    rw [FieldRule.lenient, FieldRule.check]
    split at h
    · rename_i skipped
      rw [if_pos skipped, h]
    · rename_i tested
      rw [if_neg tested]
      exact Embedding.check_mono (fun _ _ _ checked => Validator.check_lenient checked) h

theorem checkRules_lenient {rules : List FieldRule} {location : Location}
    {members after : Json.Members} (h : checkRules rules location members = .ok after) :
    checkRules (lenientRules rules) location members = .ok after := by
  match rules with
  | [] => exact h
  | rule :: rules =>
    obtain ⟨between, filled, rest⟩ := checkRules_cons_eq_ok.1 h
    rw [lenientRules]
    refine checkRules_cons_eq_ok.2 ⟨between, ?_, checkRules_lenient rest⟩
    rw [FieldRule.head_lenient, FieldRule.name_lenient]
    exact FieldHead.fill_anywhere
      (fun value out checked => FieldRule.check_lenient checked) filled _

end

theorem Embedding.cleanBy_congr {drop : Dropping} {clean clean' : Location → Json → Cleaning Json}
    (same : ∀ location document, clean' location document = clean location document)
    (embedding : Embedding) (location : Location) (value : Json) :
    embedding.cleanBy drop clean' location value = embedding.cleanBy drop clean location value := by
  obtain rfl : clean' = clean := funext fun location => funext (same location)
  rfl

section

variable {drop : Dropping}

mutual

/-- The cleanup does not look at unknown keys. -/
theorem Validator.cleanBy_lenient (validator : Validator) (location : Location) (document : Json) :
    validator.lenient.cleanBy drop location document =
      validator.cleanBy drop location document := by
  match validator with
  | .mk typeName rejectsUnknown rules =>
    rw [Validator.lenient]
    cases document with
    | obj members => rw [Validator.cleanBy, Validator.cleanBy, cleanRulesBy_lenient]
    | _ => rfl

theorem FieldRule.cleanBy_lenient (rule : FieldRule) (location : Location) (value : Json) :
    rule.lenient.cleanBy drop location value = rule.cleanBy drop location value := by
  match rule with
  | .value head checks => rfl
  | .embedded head embedding nested =>
    rw [FieldRule.lenient, FieldRule.cleanBy, FieldRule.cleanBy]
    apply Embedding.cleanBy_congr
    intro location document
    exact Validator.cleanBy_lenient nested location document

theorem cleanRulesBy_lenient (rules : List FieldRule) (location : Location)
    (members : Json.Members) :
    cleanRulesBy drop (lenientRules rules) location members =
      cleanRulesBy drop rules location members := by
  match rules with
  | [] => rfl
  | rule :: rules =>
    have value : ∀ value, rule.lenient.cleanBy drop (location ++ [.key rule.name]) value =
        rule.cleanBy drop (location ++ [.key rule.name]) value :=
      fun value => FieldRule.cleanBy_lenient rule _ value
    have rest : ∀ members, cleanRulesBy drop (lenientRules rules) location members =
        cleanRulesBy drop rules location members :=
      fun members => cleanRulesBy_lenient rules location members
    rw [lenientRules]
    simp only [cleanRulesBy, FieldRule.head_lenient, FieldRule.name_lenient, value, rest]

end

end

namespace Validator

variable {validator inner : Validator} {location steps : Location} {document reached : Json}
  {keys : List String} {violation : Violation}

theorem validateBy_lenient {service : Option Service} {out : Json}
    (h : (validator.validateBy service document).result = .ok out) :
    validator.lenient.validateBy service document = validator.validateBy service document := by
  have clean : validator.lenient.cleanBy (Service.drop service) [] =
      validator.cleanBy (Service.drop service) [] :=
    funext (validator.cleanBy_lenient [])
  rw [validateBy] at h
  rw [validateBy, validateBy, clean]
  cases checked : validator.check [] document with
  | error violations =>
    rw [judge_of_failed checked] at h
    cases h
  | ok passed =>
    have checked' := check_lenient checked
    cases ran : (validator.cleanBy (Service.drop service) [] passed).run {} with
    | error violation sweep =>
      rw [judge_of_error checked ran] at h
      cases h
    | ok cleaned sweep =>
      rw [judge_of_ok checked ran, judge_of_ok checked' ran, typeName_lenient]

theorem Descends.lenient (descends : validator.Descends document steps keys inner reached) :
    validator.lenient.Descends document steps keys inner.lenient reached := by
  induction descends with
  | here => exact .here
  | inside rule given locates _ ih =>
    have rule := lenient_mem rule
    rw [FieldRule.lenient] at rule
    exact .inside rule given locates ih

theorem Refuses.lenient (h : validator.Refuses location document violation) :
    validator.lenient.Refuses location document violation ∨
      ∃ (members : Json.Members) (key : String), document = .obj members ∧
        key ∈ members.keys ∧ key ∉ validator.fieldNames ∧
        violation = ⟨location ++ [.key key], .wrongKey⟩ := by
  cases h with
  | notObject form => exact .inl (.notObject form)
  | @missing rule members mem absent undefaulted required =>
    left
    rw [← rule.name_lenient]
    apply Refuses.missing (lenient_mem mem)
    · rwa [rule.name_lenient]
    · rwa [rule.head_lenient]
    · rwa [rule.head_lenient]
  | unknown strict mem undeclared => exact .inr ⟨_, _, rfl, mem, undeclared, rfl⟩
  | value mem given tested failed =>
    have mem := lenient_mem mem
    rw [FieldRule.lenient] at mem
    exact .inl (.value mem given tested failed)
  | form mem given tested misfit =>
    have mem := lenient_mem mem
    rw [FieldRule.lenient] at mem
    exact .inl (.form mem given tested misfit)

/-- A document that would pass with unknown keys allowed is refused for unknown keys only. -/
theorem Orderly.unknown_of_lenient (orderly : validator.Orderly) {passed : Json}
    {violations : List Violation} (h : validator.lenient.check location document = .ok passed)
    (h' : validator.check location document = .error violations) (mem : violation ∈ violations) :
    ∃ (steps : Location) (keys : List String) (inner : Validator) (members : Json.Members)
      (key : String), validator.Descends document steps keys inner (.obj members) ∧
      key ∈ members.keys ∧ key ∉ inner.fieldNames ∧
      violation = .inEntries keys ⟨location ++ steps ++ [.key key], .wrongKey⟩ := by
  obtain ⟨steps, keys, inner, reached, cause, descends, refuses, rfl⟩ := orderly.located h' mem
  obtain refuses | ⟨members, key, rfl, held, undeclared, rfl⟩ := refuses.lenient
  · obtain ⟨out, passed⟩ := descends.lenient.passes orderly.lenient h
    exact absurd refuses ((descends.orderly orderly).lenient.not_refuses passed)
  · exact ⟨steps, keys, inner, members, key, descends, held, undeclared, rfl⟩

end Validator

end DocModel
