import DocModel.Proofs.Validator.Inversion

namespace DocModel

section

variable {document : Location → Json → Checked Json} {location : Location}
  (anywhere : ∀ location value out, document location value = .ok out →
    ∀ other, document other value = .ok out)

include anywhere

theorem Embedding.checkItems_anywhere {index : Nat} {items outs : List Json}
    (h : checkItems document location index items = .ok outs) (other : Location) (index' : Nat) :
    checkItems document other index' items = .ok outs := by
  induction items generalizing index index' outs with
  | nil => exact h
  | cons item items ih =>
    obtain ⟨out, rest, first, others, rfl⟩ := checkItems_cons_eq_ok.1 h
    exact checkItems_cons_eq_ok.2 ⟨out, rest, anywhere _ _ _ first _, ih others _, rfl⟩

theorem Embedding.checkEntries_anywhere {entries outs : Json.Members}
    (h : checkEntries document location entries = .ok outs) (other : Location) :
    checkEntries document other entries = .ok outs := by
  induction entries generalizing outs with
  | nil => exact h
  | cons entry entries ih =>
    obtain ⟨out, rest, first, others, rfl⟩ := checkEntries_cons_eq_ok.1 h
    exact checkEntries_cons_eq_ok.2 ⟨out, rest, anywhere _ _ _ first _, ih others, rfl⟩

theorem Embedding.check_anywhere {embedding : Embedding} {value out : Json}
    (h : embedding.check document location value = .ok out) (other : Location) :
    embedding.check document other value = .ok out := by
  cases embedding with
  | one =>
    cases value with
    | obj members => exact anywhere _ _ _ h other
    | _ => cases h
  | many =>
    cases value with
    | obj members => exact anywhere _ _ _ h other
    | arr items =>
      obtain ⟨outs, checked, rfl⟩ := map_eq_ok.1 h
      exact map_eq_ok.2 ⟨outs, checkItems_anywhere anywhere checked other 0, rfl⟩
    | _ => cases h
  | keyed model =>
    cases value with
    | obj entries =>
      obtain ⟨outs, checked, rfl⟩ := map_eq_ok.1 h
      exact map_eq_ok.2 ⟨outs, checkEntries_anywhere anywhere checked other, rfl⟩
    | _ => cases h

end

theorem FieldHead.fill_anywhere {head : FieldHead} {check check' : Json → Checked Json}
    {location : Location} {members after : Json.Members}
    (anywhere : ∀ value out, check value = .ok out → check' value = .ok out)
    (h : head.fill check location members = .ok after) (other : Location) :
    head.fill check' other members = .ok after := by
  rw [fill_eq_ok] at h ⊢
  obtain ⟨value, out, given, checked, same⟩ | skipped := h
  · exact .inl ⟨value, out, given, anywhere value out checked, same⟩
  · exact .inr skipped

mutual

theorem Validator.check_anywhere {validator : Validator} {location : Location} {document out : Json}
    (h : validator.check location document = .ok out) (other : Location) :
    validator.check other document = .ok out := by
  match validator with
  | .mk typeName rejectsUnknown rules =>
    cases document with
    | obj members =>
      obtain ⟨after, checked, known, rfl⟩ := Validator.check_obj_eq_ok.1 h
      exact Validator.check_obj_eq_ok.2 ⟨after, checkRules_anywhere checked other, known, rfl⟩
    | _ => cases h

theorem FieldRule.check_anywhere {rule : FieldRule} {location : Location} {value out : Json}
    (h : rule.check location value = .ok out) (other : Location) :
    rule.check other value = .ok out := by
  match rule with
  | .value head checks =>
    rw [FieldRule.check] at h ⊢
    split at h
    · rename_i skipped
      rw [if_pos skipped, h]
    · rename_i tested
      rw [if_neg tested]
      exact mapError_eq_ok.2 (mapError_eq_ok.1 h)
  | .embedded head embedding nested =>
    rw [FieldRule.check] at h ⊢
    split at h
    · rename_i skipped
      rw [if_pos skipped, h]
    · rename_i tested
      rw [if_neg tested]
      exact Embedding.check_anywhere (fun _ _ _ checked => Validator.check_anywhere checked) h other

theorem checkRules_anywhere {rules : List FieldRule} {location : Location}
    {members after : Json.Members} (h : checkRules rules location members = .ok after)
    (other : Location) : checkRules rules other members = .ok after := by
  match rules with
  | [] => exact h
  | rule :: rules =>
    obtain ⟨between, filled, rest⟩ := checkRules_cons_eq_ok.1 h
    refine checkRules_cons_eq_ok.2 ⟨between, ?_, checkRules_anywhere rest other⟩
    exact FieldHead.fill_anywhere
      (fun value out checked => FieldRule.check_anywhere checked _) filled _

end

end DocModel
