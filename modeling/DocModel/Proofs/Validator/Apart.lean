import DocModel.Proofs.Validator.Again

namespace DocModel

/-- The rule of a field whose values are neither checked nor cleaned. -/
def FieldRule.unchecked (rule : FieldRule) : FieldRule := .value rule.head []

/-- The rule, which is left unchecked if it is that of the field. -/
def FieldRule.apartFrom (field : String) (rule : FieldRule) : FieldRule :=
  if rule.name = field then rule.unchecked else rule

/-- The validator that checks and cleans all but one field. -/
def Validator.apartFrom (field : String) (validator : Validator) : Validator :=
  .mk validator.typeName validator.rejectsUnknown (validator.rules.map (·.apartFrom field))

variable {oracle : Option Oracle} {rule : FieldRule} {rules : List FieldRule}
  {members other after rest : Json.Members} {field : String} {value out : Json}

namespace FieldRule

theorem name_apartFrom (field : String) (rule : FieldRule) :
    (rule.apartFrom field).name = rule.name := by
  rw [apartFrom]
  split <;> rfl

theorem apartFrom_of_ne (h : rule.name ≠ field) : rule.apartFrom field = rule := if_neg h

theorem apartFrom_self (rule : FieldRule) : rule.apartFrom rule.name = rule.unchecked := if_pos rfl

theorem eq_of_returns_unchecked (h : rule.unchecked.Returns oracle value out) : out = value := by
  generalize same : rule.unchecked = other at h
  cases h with
  | null optional => rfl
  | value passed =>
    cases same
    cases passed
    rfl
  | embedded returns => cases same

theorem Outcome.exists_of_kept (h : rule.Outcome oracle members after)
    (keeps : rule.head.removeIf = []) (found : members.get? rule.name = some value) :
    ∃ out, rule.Returns oracle value out ∧ after.insert rule.name out = after := by
  have given : rule.head.given? members = some value := FieldHead.given?_of_present found
  cases h with
  | skipped missing optional gone =>
    rw [given] at missing
    cases missing
  | kept given' returns wanted stored =>
    rw [given] at given'
    cases given'
    exact ⟨_, returns, stored⟩
  | removed given' returns unwanted gone =>
    rw [keeps] at unwanted
    cases unwanted

end FieldRule

theorem names_apartFrom (field : String) (rules : List FieldRule) :
    (rules.map (·.apartFrom field)).map FieldRule.name = rules.map FieldRule.name := by
  rw [List.map_map]
  exact List.map_congr_left fun rule _ => rule.name_apartFrom field

theorem map_apartFrom_of_notMem (h : field ∉ rules.map FieldRule.name) :
    rules.map (·.apartFrom field) = rules := by
  have each : ∀ rule ∈ rules, rule.apartFrom field = rule := by
    intro rule mem
    apply FieldRule.apartFrom_of_ne
    intro same
    exact h (List.mem_map.2 ⟨rule, mem, same⟩)
  rw [List.map_congr_left each, List.map_id']

namespace Rewrites

theorem insert {key : String} (h : Rewrites oracle rules members after)
    (fresh : key ∉ rules.map FieldRule.name) (mem : key ∈ members.keys) (value : Json) :
    Rewrites oracle rules (members.insert key value) (after.insert key value) := by
  induction h with
  | nil => exact .nil
  | @skip rule rules members after missing optional rest ih =>
    rw [List.map_cons, List.mem_cons, not_or] at fresh
    refine .skip ?_ optional (ih fresh.2 mem)
    rw [FieldHead.given?_congr (Json.Members.get?_insert_ne (Ne.symm fresh.1))]
    exact missing
  | @store rule rules members after given out given' returns rest ih =>
    rw [List.map_cons, List.mem_cons, not_or] at fresh
    have present : key ∈ (rule.head.store out members).keys := by
      rw [← Json.Members.get?_isSome_iff, FieldHead.get?_store_ne fresh.1,
        Json.Members.get?_isSome_iff]
      exact mem
    refine .store ?_ returns ?_
    · rw [FieldHead.given?_congr (Json.Members.get?_insert_ne (Ne.symm fresh.1))]
      exact given'
    · rw [← FieldHead.insert_store mem fresh.1]
      exact ih fresh.2 present

/-- Members that differ from others in one field are rewritten as those are, up to what becomes of
that field. -/
theorem of_apartFrom (h : Rewrites oracle (rules.map (·.apartFrom rule.name)) members after)
    (nodup : (rules.map FieldRule.name).Nodup) (mem : rule ∈ rules)
    (keeps : rule.head.removeIf = []) (present : rule.name ∈ members.keys)
    (same : ∀ value, other.insert rule.name value = members.insert rule.name value)
    (found : other.get? rule.name = some value) (returns : rule.Returns oracle value out) :
    Rewrites oracle rules other (after.insert rule.name out) := by
  induction rules generalizing members other with
  | nil => cases mem
  | cons first rules ih =>
    rw [List.map_cons, List.nodup_cons] at nodup
    rw [List.map_cons] at h
    cases mem with
    | head =>
      -- The field itself: what the other rules make of it unchecked, they make of its outcome.
      rw [rule.apartFrom_self, map_apartFrom_of_notMem nodup.1] at h
      have stored : ∀ value members, rule.head.store value members =
          members.insert rule.name value := by
        intro value members
        rw [FieldHead.store, keeps]
        rfl
      refine .store (FieldHead.given?_of_present found) returns ?_
      rw [stored, same]
      cases h with
      | skip missing optional rest =>
        obtain ⟨absent, -⟩ := FieldHead.given?_eq_none_iff.1 missing
        exact absurd present (Json.Members.get?_eq_none_iff.1 absent)
      | @store _ _ _ _ _ own given unchanged rest =>
        obtain rfl := FieldRule.eq_of_returns_unchecked unchanged
        have stored' : rule.unchecked.head.store own members = members.insert rule.name own :=
          stored own members
        rw [stored'] at rest
        rw [← Json.Members.insert_insert]
        apply rest.insert nodup.1
        rw [← Json.Members.get?_isSome_iff, Json.Members.get?_insert_self]
        rfl
    | tail _ mem =>
      have apart : first.name ≠ rule.name := by
        intro same
        exact nodup.1 (List.mem_map.2 ⟨rule, mem, same.symm⟩)
      rw [FieldRule.apartFrom_of_ne apart] at h
      have elsewhere : other.get? first.name = members.get? first.name :=
        calc other.get? first.name
          _ = (other.insert rule.name value).get? first.name :=
            (Json.Members.get?_insert_ne apart).symm
          _ = (members.insert rule.name value).get? first.name := by rw [same]
          _ = members.get? first.name := Json.Members.get?_insert_ne apart
      have alike : first.head.given? other = first.head.given? members :=
        FieldHead.given?_congr elsewhere
      have present' : rule.name ∈ other.keys :=
        Json.Members.get?_isSome_iff.1 (Option.isSome_iff_exists.2 ⟨value, found⟩)
      cases h with
      | skip missing optional rest =>
        exact .skip (alike.trans missing) optional (ih rest nodup.2 mem present same found)
      | @store _ _ _ _ given outcome given' returns' rest =>
        have kept : ∀ members, (first.head.store outcome members).get? rule.name =
            Json.Members.get? members rule.name :=
          fun _ => FieldHead.get?_store_ne (Ne.symm apart)
        refine .store (alike.trans given') returns' (ih rest nodup.2 mem ?_ ?_ ?_)
        · rw [← Json.Members.get?_isSome_iff, kept, Json.Members.get?_isSome_iff]
          exact present
        · intro value
          rw [FieldHead.insert_store present' (Ne.symm apart),
            FieldHead.insert_store present (Ne.symm apart), same]
        · rw [kept]
          exact found

end Rewrites

namespace Validator

variable {validator nested : Validator} {head : FieldHead} {embedding : Embedding} {document : Json}

theorem Orderly.apartFrom (orderly : validator.Orderly) (field : String) :
    (validator.apartFrom field).Orderly := by
  refine .intro ?_ ?_
  · rw [names_apartFrom]
    exact orderly.nodup_names
  · intro head embedding nested mem
    obtain ⟨rule, listed, same⟩ := List.mem_map.1 mem
    rw [FieldRule.apartFrom] at same
    split at same
    · cases same
    · exact orderly.of_mem listed _ _ _ same

theorem fieldNames_apartFrom (field : String) (validator : Validator) :
    (validator.apartFrom field).fieldNames = validator.fieldNames :=
  names_apartFrom field validator.rules

theorem Returns.unique {out' : Json} (h : validator.Returns oracle document out)
    (h' : validator.Returns oracle document out') : out = out' :=
  Except.ok.inj (h.symm.trans h')

/-- A document with some value in a field, which passes apart from that field, is validated if and
only if the value is, and the outcome has what the value comes to in that place. -/
theorem Orderly.returns_iff_apartFrom (orderly : validator.Orderly) (mem : rule ∈ validator.rules)
    (keeps : rule.head.removeIf = []) (present : rule.name ∈ members.keys)
    (apart : (validator.apartFrom rule.name).Returns oracle (.obj members) (.obj rest))
    (same : ∀ value, other.insert rule.name value = members.insert rule.name value)
    (found : other.get? rule.name = some value) :
    validator.Returns oracle (.obj other) out ↔
      ∃ image, rule.Returns oracle value image ∧ out = .obj (rest.insert rule.name image) := by
  have passes : ∀ image, rule.Returns oracle value image →
      validator.Returns oracle (.obj other) (.obj (rest.insert rule.name image)) := by
    intro image returns
    obtain ⟨known, _, rewrites, eq⟩ := (orderly.apartFrom _).returns_obj_iff.1 apart
    cases eq
    refine orderly.returns_obj_iff.2 ⟨?_, _, ?_, rfl⟩
    · rw [fieldNames_apartFrom] at known
      have present' : rule.name ∈ other.keys :=
        Json.Members.get?_isSome_iff.1 (Option.isSome_iff_exists.2 ⟨value, found⟩)
      have keys : other.keys = members.keys := by
        have keys := congrArg Json.Members.keys (same value)
        rwa [Json.Members.keys_insert, Json.Members.keys_insert, if_pos present, if_pos present']
          at keys
      rw [keys]
      exact known
    · exact rewrites.of_apartFrom orderly.nodup_names mem keeps present same found returns
  constructor
  · intro returned
    obtain ⟨after, rfl⟩ := orderly.isObject_of_returns returned
    obtain ⟨_, eq, outcome⟩ := orderly.outcome returned mem
    cases eq
    obtain ⟨image, returns, -⟩ := outcome.exists_of_kept keeps found
    exact ⟨image, returns, returned.unique (passes _ returns)⟩
  · intro both
    obtain ⟨image, returns, rfl⟩ := both
    exact passes image returns

theorem Orderly.get?_of_apartFrom (orderly : validator.Orderly) (mem : rule ∈ validator.rules)
    (keeps : rule.head.removeIf = []) (found : members.get? rule.name = some value)
    (apart : (validator.apartFrom rule.name).Returns oracle (.obj members) (.obj rest)) :
    rest.get? rule.name = some value := by
  have mem' : rule.unchecked ∈ (validator.apartFrom rule.name).rules :=
    List.mem_map.2 ⟨rule, mem, rule.apartFrom_self⟩
  obtain ⟨_, eq, outcome⟩ := (orderly.apartFrom _).outcome apart mem'
  cases eq
  obtain ⟨image, returns, stored⟩ := outcome.exists_of_kept keeps found
  rw [FieldRule.eq_of_returns_unchecked returns] at stored
  exact FieldRule.get?_of_stored stored

end Validator

end DocModel
