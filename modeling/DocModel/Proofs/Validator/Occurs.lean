import DocModel.Validator

namespace DocModel

/-- A validator occurs in itself and wherever one that it occurs in is embedded. -/
inductive Validator.Occurs (inner : Validator) : Validator → Prop
  | refl : Occurs inner inner
  | embedded {outer head embedding nested} (rule : .embedded head embedding nested ∈ outer.rules)
    (occurs : Occurs inner nested) : Occurs inner outer

theorem Validator.Occurs.trans {inner middle outer : Validator} (h : inner.Occurs middle)
    (h' : middle.Occurs outer) : inner.Occurs outer := by
  induction h' with
  | refl => exact h
  | embedded rule _ ih => exact .embedded rule ih

/-- No two rules are of one field, here and in every validator that is embedded. -/
inductive Validator.Orderly : Validator → Prop
  | intro {typeName : String} {rejectsUnknown : Bool} {rules : List FieldRule}
    (nodup : (rules.map FieldRule.name).Nodup)
    (nested : ∀ head embedding nested, .embedded head embedding nested ∈ rules → Orderly nested) :
    Orderly (.mk typeName rejectsUnknown rules)

theorem Validator.Orderly.nodup_names {validator : Validator} (h : validator.Orderly) :
    (validator.rules.map FieldRule.name).Nodup := by
  cases h with
  | intro nodup nested => exact nodup

theorem Validator.Orderly.of_embedded {validator nested : Validator} {head : FieldHead}
    {embedding : Embedding} (h : validator.Orderly)
    (rule : .embedded head embedding nested ∈ validator.rules) : nested.Orderly := by
  cases h with
  | intro nodup orderly => exact orderly _ _ _ rule

theorem Validator.Orderly.of_mem {validator : Validator} {rule : FieldRule} (h : validator.Orderly)
    (mem : rule ∈ validator.rules) : ∀ head embedding nested,
      rule = .embedded head embedding nested → nested.Orderly := by
  intro head embedding nested same
  exact h.of_embedded (same ▸ mem)

mutual

/-- Whether all rules pass a test, here and in every validator that is embedded. -/
def Validator.everyRule (test : FieldRule → Bool) (validator : Validator) : Bool :=
  match validator with
  | .mk _ _ rules => everyRules test rules
termination_by structural validator

def FieldRule.everyRule (test : FieldRule → Bool) (rule : FieldRule) : Bool :=
  match rule with
  | .value head checks => test (.value head checks)
  | .embedded head embedding nested =>
    test (.embedded head embedding nested) && nested.everyRule test
termination_by structural rule

def everyRules (test : FieldRule → Bool) (rules : List FieldRule) : Bool :=
  match rules with
  | [] => true
  | rule :: rules => rule.everyRule test && everyRules test rules
termination_by structural rules

end

theorem everyRules_iff {test : FieldRule → Bool} {rules : List FieldRule} :
    everyRules test rules ↔ ∀ rule ∈ rules, rule.everyRule test := by
  induction rules with
  | nil => simp [everyRules]
  | cons rule rules ih => rw [everyRules, Bool.and_eq_true, ih, List.forall_mem_cons]

theorem Validator.test_of_everyRule {test : FieldRule → Bool} {validator inner : Validator}
    {rule : FieldRule} (h : validator.everyRule test) (occurs : inner.Occurs validator)
    (mem : rule ∈ inner.rules) : test rule := by
  induction occurs with
  | @refl =>
    cases inner with
    | mk typeName rejectsUnknown rules =>
      rw [everyRule, everyRules_iff] at h
      have tested := h rule mem
      cases rule with
      | value head checks => exact tested
      | embedded head embedding nested =>
        rw [FieldRule.everyRule, Bool.and_eq_true] at tested
        exact tested.1
  | @embedded outer head embedding nested outerRule occurs ih =>
    cases outer with
    | mk typeName rejectsUnknown rules =>
      rw [everyRule, everyRules_iff] at h
      have tested := h _ outerRule
      rw [FieldRule.everyRule, Bool.and_eq_true] at tested
      exact ih tested.2

end DocModel
