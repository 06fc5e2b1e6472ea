import DocModel.Proofs.Clean.Reach
import DocModel.Json.Equality

namespace DocModel

/-- The ids that the oracle answers for the keys of a map; there are none without an answer. -/
def knownIds (oracle : Option Oracle) (model : String) (keys : List String) : List Int :=
  (oracle.bind fun ask => (ask model (keyIds keys)).toOption).getD []

/-- Whether a key is an id that the oracle knows. -/
def isKnown (oracle : Option Oracle) (model : String) (keys : List String) (key : String) : Bool :=
  (keyId? key).any (knownIds oracle model keys).contains

/-- The value of a field after its documents are cleaned: a map of ids keeps those entries, in
order, whose keys the oracle knows. -/
def Embedding.cleaned (oracle : Option Oracle) (document : Json → Json) (embedding : Embedding)
    (value : Json) : Json :=
  match embedding, value with
  | one, .obj _ | many, .obj _ => document value
  | many, .arr items => .arr (items.map document)
  | keyed model, .obj entries =>
    let cleaned := entries.map fun entry => (entry.1, document entry.2)
    match model with
    | some model =>
      .obj (cleaned.filter fun entry => isKnown oracle model (Json.Members.keys entries) entry.1)
    | none => .obj cleaned
  | _, value => value

mutual

/-- The cleaned document, from the innermost documents outwards: a member of a field is cleaned, and
dropped if its value is then one to be removed; other members stay as they are. -/
def Validator.cleaned (oracle : Option Oracle) (validator : Validator) (document : Json) : Json :=
  match validator with
  | .mk _ _ rules =>
    match document with
    | .obj members => .obj (members.filterMap fun member => cleanedMember oracle rules member)
    | value => value
termination_by structural validator

def FieldRule.cleaned (oracle : Option Oracle) (rule : FieldRule) (value : Json) : Json :=
  match rule with
  | .value _ _ => value
  | .embedded _ embedding nested =>
    embedding.cleaned oracle (fun document => nested.cleaned oracle document) value
termination_by structural rule

def cleanedMember (oracle : Option Oracle) (rules : List FieldRule) (member : String × Json) :
    Option (String × Json) :=
  match rules with
  | [] => some member
  | rule :: rules =>
    if member.1 = rule.name then
      let value := rule.cleaned oracle member.2
      if value.isAmong rule.head.removeIf then none else some (member.1, value)
    else cleanedMember oracle rules member
termination_by structural rules

end

theorem isKnown_iff {oracle : Option Oracle} {model key : String} {keys : List String} :
    isKnown oracle model keys key ↔
      ∃ existing id, Answers oracle model keys existing ∧ keyId? key = some id ∧ id ∈ existing := by
  have known : isKnown oracle model keys key ↔
      ∃ id, keyId? key = some id ∧ id ∈ knownIds oracle model keys := by
    rw [isKnown, Option.any_eq_true]
    simp only [List.contains_iff_mem]
  rw [known, knownIds]
  cases oracle with
  | none => simp [Answers]
  | some ask =>
    cases answer : ask model (keyIds keys) with
    | error error => simp [Answers, Except.toOption, answer]
    | ok existing => simp [Answers, Except.toOption, answer]

variable {oracle : Option Oracle} {validator inner : Validator} {rules : List FieldRule}
  {rule : FieldRule} {member result : String × Json} {members : Json.Members} {name : String}
  {value document : Json}

theorem fst_of_cleanedMember (h : cleanedMember oracle rules member = some result) :
    result.1 = member.1 := by
  induction rules with
  | nil =>
    cases h
    rfl
  | cons rule rules ih =>
    rw [cleanedMember] at h
    split at h
    · dsimp only at h
      split at h
      · cases h
      · cases h
        rfl
    · exact ih h

theorem cleanedMember_of_notMem (h : member.1 ∉ rules.map FieldRule.name) :
    cleanedMember oracle rules member = some member := by
  induction rules with
  | nil => rw [cleanedMember]
  | cons rule rules ih =>
    rw [List.map_cons, List.mem_cons, not_or] at h
    rw [cleanedMember, if_neg h.1]
    exact ih h.2

theorem cleanedMember_of_mem (nodup : (rules.map FieldRule.name).Nodup) (mem : rule ∈ rules)
    (named : member.1 = rule.name) :
    cleanedMember oracle rules member =
      if (rule.cleaned oracle member.2).isAmong rule.head.removeIf then none
      else some (member.1, rule.cleaned oracle member.2) := by
  induction rules with
  | nil => cases mem
  | cons first rules ih =>
    rw [List.map_cons, List.nodup_cons] at nodup
    rw [cleanedMember]
    cases mem with
    | head => rw [if_pos named]
    | tail _ mem =>
      have apart : member.1 ≠ first.name := by
        intro same
        exact nodup.1 (List.mem_map.2 ⟨rule, mem, named.symm.trans same⟩)
      rw [if_neg apart]
      exact ih nodup.2 mem

theorem cleaned_obj (oracle : Option Oracle) (validator : Validator) (members : Json.Members) :
    validator.cleaned oracle (.obj members) =
      .obj (members.filterMap (cleanedMember oracle validator.rules)) := by
  cases validator with
  | mk typeName rejectsUnknown rules => rw [Validator.cleaned]; rfl

theorem get?_cleaned (nodup : (rules.map FieldRule.name).Nodup) (mem : rule ∈ rules)
    (found : Json.Members.get? (members.filterMap (cleanedMember oracle rules)) rule.name =
      some value) (distinct : members.keys.Nodup) :
    ∃ old, members.get? rule.name = some old ∧ value = rule.cleaned oracle old ∧
      ¬ value.isAmong rule.head.removeIf := by
  obtain ⟨⟨key, old⟩, listed, kept⟩ := List.mem_filterMap.1 (Json.Members.mem_of_get? found)
  have named : rule.name = key := fst_of_cleanedMember kept
  rw [cleanedMember_of_mem nodup mem named.symm] at kept
  split at kept
  · cases kept
  · rename_i wanted
    cases kept
    exact ⟨old, Json.Members.get?_of_mem distinct listed, rfl, wanted⟩

theorem cleaned_isObject (oracle : Option Oracle) (validator : Validator) (members : Json.Members) :
    ∃ kept : Json.Members, validator.cleaned oracle (.obj members) = .obj kept :=
  ⟨_, cleaned_obj oracle validator members⟩

theorem exists_of_cleaned_eq_obj (h : .obj members = validator.cleaned oracle document) :
    ∃ old : Json.Members, document = .obj old ∧
      members = old.filterMap (cleanedMember oracle validator.rules) := by
  cases document with
  | obj old =>
    rw [cleaned_obj] at h
    cases h
    exact ⟨old, rfl, rfl⟩
  | _ =>
    cases validator with
    | mk typeName rejectsUnknown rules => cases h

theorem Embedding.contains_cleaned {embedding : Embedding} {nested : Validator}
    (h : embedding.Contains
      (embedding.cleaned oracle (fun document => nested.cleaned oracle document) value) document) :
    ∃ old, embedding.Contains value old ∧ document = nested.cleaned oracle old := by
  cases embedding with
  | one =>
    cases value with
    | obj members =>
      obtain ⟨kept, same⟩ := cleaned_isObject oracle nested members
      rw [Embedding.cleaned, same] at h
      cases h
      exact ⟨_, .one, same.symm⟩
    | _ => cases h
  | many =>
    cases value with
    | obj members =>
      obtain ⟨kept, same⟩ := cleaned_isObject oracle nested members
      rw [Embedding.cleaned, same] at h
      cases h
      exact ⟨_, .single, same.symm⟩
    | arr items =>
      cases h with
      | item mem =>
        obtain ⟨old, listed, rfl⟩ := List.mem_map.1 mem
        exact ⟨old, .item listed, rfl⟩
    | _ => cases h
  | keyed model =>
    cases value with
    | obj entries =>
      have entry : ∀ entry ∈ entries.map (fun entry => (entry.1, nested.cleaned oracle entry.2)),
          ∃ old, (keyed model).Contains (.obj entries) old ∧
            entry.2 = nested.cleaned oracle old := by
        intro entry mem
        obtain ⟨old, listed, rfl⟩ := List.mem_map.1 mem
        exact ⟨old.2, .entry listed, rfl⟩
      cases model with
      | none =>
        cases h with
        | entry mem => exact entry _ mem
      | some model =>
        cases h with
        | entry mem => exact entry _ (List.mem_filter.1 mem).1
    | _ => cases h

theorem Embedding.Contains.distinct {embedding : Embedding} (h : embedding.Contains value document)
    (distinct : value.Distinct) : document.Distinct := by
  cases h with
  | one => exact distinct
  | single => exact distinct
  | item mem =>
    cases distinct with
    | arr each => exact each _ mem
  | entry mem =>
    cases distinct with
    | obj nodup each => exact each _ mem

/-- What is reached in the cleaned document is what was reached before, cleaned. -/
theorem Validator.Reaches.of_cleaned {result : Json} (orderly : validator.Orderly)
    (distinct : document.Distinct)
    (h : validator.Reaches (validator.cleaned oracle document) inner result) :
    ∃ old, validator.Reaches document inner old ∧ result = inner.cleaned oracle old ∧
      inner.Orderly ∧ old.Distinct := by
  -- On the path through the cleaned document, which is followed in the one before.
  generalize cleaned : validator.cleaned oracle document = after at h
  induction h generalizing document with
  | refl => exact ⟨document, .refl, cleaned.symm, orderly, distinct⟩
  | @embedded validator nested target members head embedding value inner result rule found contains
      reaches ih =>
    obtain ⟨before, rfl, rfl⟩ := exists_of_cleaned_eq_obj cleaned.symm
    cases distinct with
    | obj nodup each =>
      obtain ⟨old, found', rfl, -⟩ := get?_cleaned orderly.nodup_names rule found nodup
      obtain ⟨held, contains', rfl⟩ := Embedding.contains_cleaned contains
      have distinct : held.Distinct :=
        contains'.distinct (each _ (Json.Members.mem_of_get? found'))
      obtain ⟨last, reaches', same, orderly', distinct'⟩ :=
        ih (orderly.of_embedded rule) distinct rfl
      exact ⟨last, .embedded rule found' contains' reaches', same, orderly', distinct'⟩

theorem not_isAmong_of_reaches_cleaned (orderly : validator.Orderly) (distinct : document.Distinct)
    (h : validator.Reaches (validator.cleaned oracle document) inner (.obj members))
    (mem : rule ∈ inner.rules) (found : members.get? rule.name = some value) :
    ¬ value.isAmong rule.head.removeIf := by
  obtain ⟨old, -, same, orderly', distinct'⟩ := h.of_cleaned orderly distinct
  obtain ⟨before, rfl, rfl⟩ := exists_of_cleaned_eq_obj same
  cases distinct' with
  | obj nodup each =>
    obtain ⟨-, -, -, wanted⟩ := get?_cleaned orderly'.nodup_names mem found nodup
    exact wanted

theorem isKnown_of_holdsIds_cleaned {model : String} {entries : Json.Members} {key : String}
    (orderly : validator.Orderly) (distinct : document.Distinct)
    (h : validator.HoldsIds (validator.cleaned oracle document) model entries)
    (mem : key ∈ entries.keys) :
    ∃ original : Json.Members, validator.HoldsIds document model original ∧
      key ∈ original.keys ∧ isKnown oracle model original.keys key := by
  cases h with
  | @intro inner nested members head reaches rule found =>
    obtain ⟨old, reaches', same, orderly', distinct'⟩ := reaches.of_cleaned orderly distinct
    obtain ⟨before, rfl, rfl⟩ := exists_of_cleaned_eq_obj same
    cases distinct' with
    | obj nodup each =>
      obtain ⟨value, found', cleaned, -⟩ := get?_cleaned orderly'.nodup_names rule found nodup
      cases value with
      | obj original =>
        cases cleaned
        obtain ⟨entry, kept, rfl⟩ := List.mem_map.1 mem
        obtain ⟨listed, known⟩ := List.mem_filter.1 kept
        obtain ⟨old, listed', rfl⟩ := List.mem_map.1 listed
        exact ⟨original, .intro reaches' rule found', List.mem_map.2 ⟨old, listed', rfl⟩, known⟩
      | _ => cases cleaned

end DocModel
