import DocModel.Proofs.Json.Distinct
import DocModel.Proofs.Validator.Inversion
import DocModel.Proofs.Validator.Occurs

namespace DocModel

/-- In the defaults of the fields, here and in all that is embedded, no object has two members of
one key. -/
def Validator.DistinctDefaults (validator : Validator) : Prop :=
  ∀ inner : Validator, inner.Occurs validator → ∀ rule ∈ inner.rules, ∀ value,
    rule.head.default = some value → value.Distinct

theorem Validator.DistinctDefaults.of_embedded {validator nested : Validator} {head : FieldHead}
    {embedding : Embedding} (h : validator.DistinctDefaults)
    (rule : .embedded head embedding nested ∈ validator.rules) : nested.DistinctDefaults := by
  intro inner occurs
  exact h inner (.embedded rule occurs)

theorem trimPoint_distinct {members after : Json.Members} (distinct : (Json.obj members).Distinct)
    (h : trimPoint members = .ok after) : (Json.obj after).Distinct := by
  unfold trimPoint at h
  split at h
  · obtain ⟨_, -, h⟩ := bind_eq_ok.1 h
    obtain ⟨_, -, h⟩ := bind_eq_ok.1 h
    obtain ⟨_, -, h⟩ := bind_eq_ok.1 h
    cases h
    obtain ⟨nodup, each⟩ := Json.distinct_obj_iff.1 distinct
    apply Json.Distinct.obj (nodup.sublist (List.filter_sublist.map _))
    intro member mem
    exact each member (List.mem_of_mem_filter mem)
  · cases h

namespace Check

theorem apply_distinct {check : Check} {value out : Json} (h : check.apply value = .ok out)
    (distinct : value.Distinct) : out.Distinct := by
  unfold apply at h
  split at h
  · cases value with
    | obj members =>
      obtain ⟨after, trimmed, rfl⟩ := map_eq_ok.1 h
      exact trimPoint_distinct distinct trimmed
    | _ => cases h
  · split at h <;> cases h
    exact distinct
  · split at h
    · split at h <;> cases h
      exact distinct
    · cases h
  · split at h <;> cases h
    exact distinct
  · split at h <;> cases h
    exact distinct

theorem applyAll_distinct {checks : List Check} {value out : Json}
    (h : applyAll checks value = .ok out) (distinct : value.Distinct) : out.Distinct :=
  foldlM_invariant (fun _ _ _ => apply_distinct) h distinct

end Check

namespace Embedding

variable {document : Location → Json → Checked Json} {location : Location}
  (keeps : ∀ location value out, document location value = .ok out → value.Distinct → out.Distinct)

include keeps

theorem checkItems_distinct {index : Nat} {items outs : List Json}
    (h : checkItems document location index items = .ok outs)
    (distinct : ∀ item ∈ items, item.Distinct) : ∀ out ∈ outs, out.Distinct := by
  induction items generalizing index outs with
  | nil =>
    cases h
    exact nofun
  | cons item items ih =>
    obtain ⟨out, rest, first, others, rfl⟩ := checkItems_cons_eq_ok.1 h
    rw [List.forall_mem_cons] at distinct ⊢
    exact ⟨keeps _ _ _ first distinct.1, ih others distinct.2⟩

theorem checkEntries_distinct {entries outs : Json.Members}
    (h : checkEntries document location entries = .ok outs)
    (distinct : ∀ entry ∈ entries, entry.2.Distinct) :
    outs.keys = entries.keys ∧ ∀ out ∈ outs, out.2.Distinct := by
  induction entries generalizing outs with
  | nil =>
    cases h
    exact ⟨rfl, nofun⟩
  | cons entry entries ih =>
    obtain ⟨out, rest, first, others, rfl⟩ := checkEntries_cons_eq_ok.1 h
    rw [List.forall_mem_cons] at distinct ⊢
    obtain ⟨keys, held⟩ := ih others distinct.2
    exact ⟨congrArg (entry.1 :: ·) keys, keeps _ _ _ first distinct.1, held⟩

theorem check_distinct {embedding : Embedding} {value out : Json}
    (h : embedding.check document location value = .ok out) (distinct : value.Distinct) :
    out.Distinct := by
  cases embedding with
  | one =>
    cases value with
    | obj members => exact keeps _ _ _ h distinct
    | _ => cases h
  | many =>
    cases value with
    | obj members => exact keeps _ _ _ h distinct
    | arr items =>
      obtain ⟨outs, checked, rfl⟩ := map_eq_ok.1 h
      cases distinct with
      | arr each => exact .arr (checkItems_distinct keeps checked each)
    | _ => cases h
  | keyed model =>
    cases value with
    | obj entries =>
      obtain ⟨outs, checked, rfl⟩ := map_eq_ok.1 h
      obtain ⟨nodup, each⟩ := Json.distinct_obj_iff.1 distinct
      obtain ⟨keys, held⟩ := checkEntries_distinct keeps checked each
      exact .obj (keys ▸ nodup) held
    | _ => cases h

end Embedding

theorem checkRules_distinct {rules : List FieldRule} {location : Location}
    {members after : Json.Members}
    (keeps : ∀ rule ∈ rules, ∀ location value out, rule.check location value = .ok out →
      value.Distinct → out.Distinct)
    (defaults : ∀ rule ∈ rules, ∀ value, rule.head.default = some value → value.Distinct)
    (h : checkRules rules location members = .ok after) (distinct : (Json.obj members).Distinct) :
    (Json.obj after).Distinct := by
  induction rules generalizing members with
  | nil =>
    cases h
    exact distinct
  | cons rule rules ih =>
    rw [List.forall_mem_cons] at keeps defaults
    obtain ⟨between, filled, rest⟩ := checkRules_cons_eq_ok.1 h
    apply ih keeps.2 defaults.2 rest
    obtain ⟨value, out, given, checked, rfl⟩ | ⟨-, -, rfl⟩ := FieldHead.fill_eq_ok.1 filled
    · apply Json.Reading.distinct_insert distinct
      apply keeps.1 _ _ _ checked
      obtain found | ⟨-, default⟩ := Option.or_eq_some_iff.1 given
      · exact (Json.distinct_obj_iff.1 distinct).2 _ (Json.Members.mem_of_get? found)
      · exact defaults.1 value default
    · exact distinct

theorem Validator.Orderly.check_distinct {validator : Validator} {location : Location}
    {document out : Json} (orderly : validator.Orderly) (defaults : validator.DistinctDefaults)
    (h : validator.check location document = .ok out) (distinct : document.Distinct) :
    out.Distinct := by
  induction orderly generalizing location document out with
  | @intro typeName rejectsUnknown rules nodup nested ih =>
    cases document with
    | obj members =>
      obtain ⟨after, checked, -, rfl⟩ := check_obj_eq_ok.1 h
      apply checkRules_distinct _ (defaults _ .refl) checked distinct
      intro rule mem location value out passed distinct
      cases rule with
      | value head checks =>
        rw [FieldRule.check] at passed
        split at passed
        · cases passed
          exact distinct
        · exact Check.applyAll_distinct (mapError_eq_ok.1 passed) distinct
      | embedded head embedding nested =>
        rw [FieldRule.check] at passed
        split at passed
        · cases passed
          exact distinct
        · apply Embedding.check_distinct _ passed distinct
          intro location value out
          exact ih head embedding nested mem (defaults.of_embedded mem)
    | _ => cases h

end DocModel
