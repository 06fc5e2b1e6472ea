import DocModel.Proofs.Except
import DocModel.Proofs.Json.Members
import DocModel.Validator.Check

namespace DocModel

namespace Embedding

variable {document : Location → Json → Checked Json} {Good : Json → Prop}
  (sound : ∀ location value, (∃ out, document location value = .ok out) ↔ Good value)

include sound

theorem checkItems_iff (location : Location) (index : Nat) (items : List Json) :
    (∃ out, checkItems document location index items = .ok out) ↔ ∀ item ∈ items, Good item := by
  induction items generalizing index with
  | nil => simp [checkItems]
  | cons item items ih =>
    rw [List.forall_mem_cons, ← ih (index + 1), ← sound (location ++ [.index index])]
    simp only [checkItems, exists_bind_eq_ok, exists_pure_eq_ok, and_true, exists_and_right]

theorem checkEntries_iff (location : Location) (entries : Json.Members) :
    (∃ out, checkEntries document location entries = .ok out) ↔
      ∀ entry ∈ entries, Good entry.2 := by
  induction entries with
  | nil => simp [checkEntries]
  | cons entry entries ih =>
    obtain ⟨key, value⟩ := entry
    rw [List.forall_mem_cons, ← ih, ← sound (location ++ [.key key])]
    simp only [checkEntries]
    cases document (location ++ [.key key]) value with
    | ok checked => cases checkEntries document location entries <;> simp
    | error violations => cases checkEntries document location entries <;> simp

theorem check_one_iff (location : Location) (value : Json) :
    (∃ out, check document .one location value = .ok out) ↔
      ∃ members, value = .obj members ∧ Good value := by
  cases value with
  | obj members => simp [check, sound]
  | _ => simp [check]

theorem check_many_iff (location : Location) (value : Json) :
    (∃ out, check document .many location value = .ok out) ↔
      (∃ items, value = .arr items ∧ ∀ item ∈ items, Good item) ∨
        ∃ members, value = .obj members ∧ Good value := by
  cases value with
  | arr items => simp [check, exists_map_eq_ok, checkItems_iff sound]
  | obj members => simp [check, sound]
  | _ => simp [check]

theorem check_keyed_iff (model : Option String) (location : Location) (value : Json) :
    (∃ out, check document (.keyed model) location value = .ok out) ↔
      ∃ entries, value = .obj entries ∧ ∀ entry ∈ entries, Good entry.2 := by
  cases value with
  | obj entries =>
    simp only [check, exists_map_eq_ok, checkEntries_iff sound, Json.obj.injEq, exists_eq_left']
  | _ => simp [check]

end Embedding

namespace FieldHead

variable {head : FieldHead} {check : Json → Checked Json} {Good : Json → Prop}
  {location : Location} {members after : Json.Members} {key : String}

/-- A field fits if its value is good; or if it is absent and its default is good; or if it is
absent, without a default, and not required. -/
def Fits (head : FieldHead) (Good : Json → Prop) (members : Json.Members) : Prop :=
  (∃ value, members.get? head.name = some value ∧ Good value) ∨
    members.get? head.name = none ∧
      ((∃ value, head.default = some value ∧ Good value) ∨
        head.default = none ∧ head.required = false)

theorem fill_iff (sound : ∀ value, (∃ out, check value = .ok out) ↔ Good value)
    (location : Location) :
    (∃ after, head.fill check location members = .ok after) ↔ head.Fits Good members := by
  unfold fill Fits
  cases members.get? head.name with
  | some value => simp [exists_map_eq_ok, sound]
  | none =>
    cases head.default with
    | some value => simp [exists_map_eq_ok, sound]
    | none => cases head.required <;> simp

theorem get?_of_fill (h : head.fill check location members = .ok after) (other : key ≠ head.name) :
    after.get? key = members.get? key := by
  unfold fill at h
  split at h
  · obtain ⟨value, -, rfl⟩ := map_eq_ok.1 h
    exact Json.Members.get?_set_ne other
  · split at h
    · obtain ⟨value, -, rfl⟩ := map_eq_ok.1 h
      exact Json.Members.get?_append_ne other
    · split at h
      · cases h
      · cases h
        rfl

theorem keys_of_fill (h : head.fill check location members = .ok after) :
    members.keys ⊆ after.keys ∧ after.keys ⊆ head.name :: members.keys := by
  unfold fill at h
  split at h
  · obtain ⟨value, -, rfl⟩ := map_eq_ok.1 h
    rw [Json.Members.keys_set]
    exact ⟨List.Subset.refl _, List.subset_cons_self _ _⟩
  · split at h
    · obtain ⟨value, -, rfl⟩ := map_eq_ok.1 h
      simp [Json.Members.keys]
    · split at h
      · cases h
      · cases h
        exact ⟨List.Subset.refl _, List.subset_cons_self _ _⟩

end FieldHead

section

variable {Good : FieldRule → Json → Prop} {rules : List FieldRule} {location : Location}
  {members after : Json.Members}

theorem keys_of_checkRules (h : checkRules rules location members = .ok after) :
    members.keys ⊆ after.keys ∧ after.keys ⊆ rules.map FieldRule.name ++ members.keys := by
  induction rules generalizing members with
  | nil =>
    cases h
    exact ⟨List.Subset.refl _, List.Subset.refl _⟩
  | cons rule rules ih =>
    rw [checkRules, bind_eq_ok] at h
    obtain ⟨between, filled, h⟩ := h
    obtain ⟨keep, bound⟩ := FieldHead.keys_of_fill filled
    obtain ⟨keep', bound'⟩ := ih h
    refine ⟨List.Subset.trans keep keep', fun key mem => ?_⟩
    have mem := bound' mem
    rw [List.mem_append] at mem
    obtain mem | mem := mem
    · simp [mem]
    · obtain rfl | mem := List.mem_cons.1 (bound mem)
      · simp [FieldRule.name]
      · simp [mem]

/-- The order of the rules is of no account: each looks at its own field as it was given. -/
theorem checkRules_iff (nodup : (rules.map FieldRule.name).Nodup)
    (sound : ∀ rule ∈ rules, ∀ location value,
      (∃ out, rule.check location value = .ok out) ↔ Good rule value) :
    (∃ after, checkRules rules location members = .ok after) ↔
      ∀ rule ∈ rules, rule.head.Fits (Good rule) members := by
  induction rules generalizing members with
  | nil => simp [checkRules]
  | cons rule rules ih =>
    rw [List.map_cons, List.nodup_cons] at nodup
    rw [List.forall_mem_cons] at sound
    rw [List.forall_mem_cons, checkRules, exists_bind_eq_ok,
      ← FieldHead.fill_iff (sound.1 (location ++ [.key rule.name])) (location ++ [.key rule.name])]
    -- Filling one field is of no account to the rules of the others.
    have same : ∀ between, rule.head.fill (fun value => rule.check (location ++ [.key rule.name])
        value) (location ++ [.key rule.name]) members = .ok between →
        ((∃ after, checkRules rules location between = .ok after) ↔
          ∀ rule ∈ rules, rule.head.Fits (Good rule) members) := by
      intro between filled
      rw [ih nodup.2 sound.2]
      refine forall₂_congr fun other mem => ?_
      have apart : other.head.name ≠ rule.head.name := by
        intro same
        exact nodup.1 (List.mem_map.2 ⟨other, mem, same⟩)
      rw [FieldHead.Fits, FieldHead.Fits, FieldHead.get?_of_fill filled apart]
    constructor
    · intro passed
      obtain ⟨between, filled, rest⟩ := passed
      exact ⟨⟨between, filled⟩, (same _ filled).1 rest⟩
    · intro fits
      obtain ⟨⟨between, filled⟩, rest⟩ := fits
      exact ⟨between, filled, (same _ filled).2 rest⟩

theorem unknownKey_eq_none_iff {strict : Bool} {keys known : List String} :
    (if strict then keys.find? (!known.contains ·) else none) = none ↔
      (strict → ∀ key ∈ keys, key ∈ known) := by
  cases strict <;> simp

theorem Validator.check_iff {typeName : String} {rejectsUnknown : Bool} {document : Json}
    (nodup : (rules.map FieldRule.name).Nodup)
    (sound : ∀ rule ∈ rules, ∀ location value,
      (∃ out, rule.check location value = .ok out) ↔ Good rule value) :
    (∃ out, (Validator.mk typeName rejectsUnknown rules).check location document = .ok out) ↔
      ∃ members : Json.Members, document = .obj members ∧
        (∀ rule ∈ rules, rule.head.Fits (Good rule) members) ∧
        (rejectsUnknown → ∀ key ∈ members.keys, key ∈ rules.map FieldRule.name) := by
  cases document with
  | obj members =>
    rw [Validator.check, exists_bind_eq_ok]
    constructor
    · intro passed
      obtain ⟨after, checked, out, h⟩ := passed
      refine ⟨members, rfl, (checkRules_iff nodup sound).1 ⟨after, checked⟩, ?_⟩
      dsimp only at h
      cases unknown : (if rejectsUnknown then
          after.keys.find? (!(rules.map FieldRule.name).contains ·) else none) with
      | some key =>
        rw [unknown] at h
        cases h
      | none =>
        intro strict key mem
        exact unknownKey_eq_none_iff.1 unknown strict key ((keys_of_checkRules checked).1 mem)
    · intro conforms
      obtain ⟨members', same, fits, known⟩ := conforms
      cases same
      obtain ⟨after, checked⟩ := (checkRules_iff nodup sound).2 fits
      have known' : rejectsUnknown → ∀ key ∈ after.keys, key ∈ rules.map FieldRule.name := by
        intro strict key mem
        obtain mem | mem := List.mem_append.1 ((keys_of_checkRules checked).2 mem)
        · exact mem
        · exact known strict key mem
      refine ⟨after, checked, .obj after, ?_⟩
      dsimp only
      rw [unknownKey_eq_none_iff.2 known']
      rfl
  | _ => simp [Validator.check]

end

end DocModel
