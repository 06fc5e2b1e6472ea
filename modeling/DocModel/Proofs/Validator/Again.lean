import DocModel.Proofs.Clean.Fixed
import DocModel.Proofs.Validator.Rewrites

namespace DocModel

/-- What becomes of one field when a document is validated. That `after` holds the outcome is said
by an insertion that changes nothing: it speaks of all members of that name. -/
inductive FieldRule.Outcome (oracle : Option Oracle) (rule : FieldRule)
    (members after : Json.Members) : Prop
  | skipped (missing : rule.head.given? members = none) (optional : rule.head.required = false)
    (gone : after.get? rule.name = none)
  | kept {value out : Json} (given : rule.head.given? members = some value)
    (returns : rule.Returns oracle value out) (wanted : ¬ out.isAmong rule.head.removeIf)
    (stored : after.insert rule.name out = after)
  | removed {value out : Json} (given : rule.head.given? members = some value)
    (returns : rule.Returns oracle value out) (unwanted : out.isAmong rule.head.removeIf)
    (gone : after.get? rule.name = none)

/-- A field that a document lacks will not be added: it is neither required nor has a default, or
its default comes to a value with which it is removed. -/
def FieldRule.StaysAbsent (oracle : Option Oracle) (rule : FieldRule) : Prop :=
  (rule.head.default = none ∧ rule.head.required = false) ∨
    ∃ value out, rule.head.default = some value ∧ rule.Returns oracle value out ∧
      out.isAmong rule.head.removeIf

/-- No field that is lacking anywhere in the document will be added. -/
def Validator.Lasting (oracle : Option Oracle) (validator : Validator) (document : Json) : Prop :=
  ∀ inner members rule, validator.Reaches document inner (.obj members) → rule ∈ inner.rules →
    Json.Members.get? members rule.name = none → rule.StaysAbsent oracle

/-- What the tests leave of a value passes them once more, unchanged. -/
def Check.Idempotent (checks : List Check) : Prop :=
  ∀ value out, applyAll checks value = .ok out → applyAll checks out = .ok out

/-- The tests of plain values are idempotent wherever they are made. -/
def Validator.Idempotent (validator : Validator) : Prop :=
  ∀ (inner : Validator) (head : FieldHead) (checks : List Check), inner.Occurs validator →
    .value head checks ∈ inner.rules → Check.Idempotent checks

variable {oracle : Option Oracle} {rule : FieldRule} {rules : List FieldRule}
  {members after : Json.Members} {key : String} {value out : Json}

theorem FieldHead.insert_store {head : FieldHead} (mem : key ∈ members.keys)
    (h : key ≠ head.name) :
    (head.store out members).insert key value = head.store out (members.insert key value) := by
  rw [store, store, Json.Members.erase_insert_ne h, ← Json.Members.insert_comm mem h.symm]
  split <;> rfl

namespace Rewrites

theorem get?_eq (h : Rewrites oracle rules members after)
    (fresh : key ∉ rules.map FieldRule.name) : after.get? key = members.get? key := by
  induction h with
  | nil => rfl
  | skip missing optional rest ih =>
    rw [List.map_cons, List.mem_cons, not_or] at fresh
    exact ih fresh.2
  | store given returns rest ih =>
    rw [List.map_cons, List.mem_cons, not_or] at fresh
    rw [ih fresh.2, FieldHead.get?_store_ne fresh.1]

theorem insert_eq_self (h : Rewrites oracle rules members after)
    (fresh : key ∉ rules.map FieldRule.name) (held : members.insert key value = members) :
    after.insert key value = after := by
  induction h with
  | nil => exact held
  | skip missing optional rest ih =>
    rw [List.map_cons, List.mem_cons, not_or] at fresh
    exact ih fresh.2 held
  | @store rule rules members after given out _ returns rest ih =>
    rw [List.map_cons, List.mem_cons, not_or] at fresh
    apply ih fresh.2
    have mem : key ∈ members.keys := by
      rw [← Json.Members.get?_isSome_iff, ← held, Json.Members.get?_insert_self]
      rfl
    rw [FieldHead.insert_store mem fresh.1, held]

theorem keys_subset (h : Rewrites oracle rules members after) :
    after.keys ⊆ rules.map FieldRule.name ++ members.keys := by
  intro key mem
  rw [List.mem_append]
  by_cases declared : key ∈ rules.map FieldRule.name
  · exact .inl declared
  · right
    rwa [← Json.Members.get?_isSome_iff, ← h.get?_eq declared, Json.Members.get?_isSome_iff]

theorem outcome (h : Rewrites oracle rules members after)
    (nodup : (rules.map FieldRule.name).Nodup) (mem : rule ∈ rules) :
    rule.Outcome oracle members after := by
  induction h with
  | nil => cases mem
  | @skip first rules members after missing optional rest ih =>
    rw [List.map_cons, List.nodup_cons] at nodup
    cases mem with
    | head =>
      refine .skipped missing optional ?_
      rw [rest.get?_eq nodup.1]
      exact (FieldHead.given?_eq_none_iff.1 missing).1
    | tail _ mem => exact ih nodup.2 mem
  | @store first rules members after value out given returns rest ih =>
    rw [List.map_cons, List.nodup_cons] at nodup
    cases mem with
    | head =>
      by_cases unwanted : out.isAmong rule.head.removeIf
      · refine .removed given returns unwanted ?_
        rw [rest.get?_eq nodup.1, FieldHead.store, if_pos unwanted]
        exact Json.Members.get?_erase_self
      · refine .kept given returns unwanted (rest.insert_eq_self nodup.1 ?_)
        rw [FieldHead.store, if_neg unwanted]
        exact Json.Members.insert_insert
    | tail _ mem =>
      have apart : rule.head.name ≠ first.head.name := by
        intro same
        exact nodup.1 (List.mem_map.2 ⟨rule, mem, same⟩)
      have same : rule.head.given? (first.head.store out members) = rule.head.given? members :=
        FieldHead.given?_congr (FieldHead.get?_store_ne apart)
      cases ih nodup.2 mem with
      | skipped missing optional gone => exact .skipped (same ▸ missing) optional gone
      | kept given returns wanted stored => exact .kept (same ▸ given) returns wanted stored
      | removed given returns unwanted gone =>
        exact .removed (same ▸ given) returns unwanted gone

theorem refl (each : ∀ rule ∈ rules, rule.Outcome oracle members members) :
    Rewrites oracle rules members members := by
  induction rules with
  | nil => exact .nil
  | cons rule rules ih =>
    rw [List.forall_mem_cons] at each
    have rest := ih each.2
    cases each.1 with
    | skipped missing optional gone => exact .skip missing optional rest
    | kept given returns wanted stored =>
      have same : rule.head.store _ members = members := (if_neg wanted).trans stored
      exact .store given returns (same.symm ▸ rest)
    | removed given returns unwanted gone =>
      have same : rule.head.store _ members = members :=
        (if_pos unwanted).trans
          (Json.Members.erase_of_notMem (Json.Members.get?_eq_none_iff.1 gone))
      exact .store given returns (same.symm ▸ rest)

end Rewrites

namespace FieldRule

theorem get?_of_stored (stored : after.insert rule.name out = after) :
    after.get? rule.name = some out := by
  rw [← stored]
  exact Json.Members.get?_insert_self

theorem Outcome.exists_returns (h : rule.Outcome oracle members after)
    (found : after.get? rule.name = some out) : ∃ value, rule.Returns oracle value out := by
  cases h with
  | skipped missing optional gone =>
    rw [gone] at found
    cases found
  | kept given returns wanted stored =>
    rw [get?_of_stored stored] at found
    cases found
    exact ⟨_, returns⟩
  | removed given returns unwanted gone =>
    rw [gone] at found
    cases found

/-- A field that has been through validation stays as it is if and only if it stays absent when it
is and its value is returned as it is otherwise. -/
theorem Outcome.again_iff (h : rule.Outcome oracle members after) :
    rule.Outcome oracle after after ↔
      (after.get? rule.name = none → rule.StaysAbsent oracle) ∧
        ∀ out, after.get? rule.name = some out → rule.Returns oracle out out := by
  constructor
  · intro again
    cases again with
    | skipped missing optional gone =>
      obtain ⟨-, undefaulted⟩ := FieldHead.given?_eq_none_iff.1 missing
      refine ⟨fun _ => .inl ⟨undefaulted, optional⟩, fun out found => ?_⟩
      rw [gone] at found
      cases found
    | kept given returns wanted stored =>
      have found := get?_of_stored stored
      refine ⟨fun absent => ?_, fun out found' => ?_⟩
      · rw [absent] at found
        cases found
      · rw [FieldHead.given?_of_present found'] at given
        rw [found] at found'
        cases given
        cases found'
        exact returns
    | removed given returns unwanted gone =>
      rw [FieldHead.given?_of_absent gone] at given
      refine ⟨fun _ => .inr ⟨_, _, given, returns, unwanted⟩, fun out found => ?_⟩
      rw [gone] at found
      cases found
  · intro both
    obtain ⟨absent, present⟩ := both
    have of_gone : after.get? rule.name = none → rule.Outcome oracle after after := by
      intro gone
      obtain ⟨undefaulted, optional⟩ | ⟨value, out, default, returns, unwanted⟩ := absent gone
      · exact .skipped (FieldHead.given?_eq_none_iff.2 ⟨gone, undefaulted⟩) optional gone
      · exact .removed ((FieldHead.given?_of_absent gone).trans default) returns unwanted gone
    cases h with
    | skipped missing optional gone => exact of_gone gone
    | kept given returns wanted stored =>
      have found := get?_of_stored stored
      exact .kept (FieldHead.given?_of_present found) (present _ found) wanted stored
    | removed given returns unwanted gone => exact of_gone gone

end FieldRule

namespace Validator

variable {validator inner nested : Validator} {document : Json}

theorem Orderly.isObject_of_returns (orderly : validator.Orderly)
    (h : validator.Returns oracle document out) : ∃ after, out = .obj after := by
  obtain ⟨members, rfl⟩ := Validator.isObject_of_returns h
  obtain ⟨-, after, -, rfl⟩ := orderly.returns_obj_iff.1 h
  exact ⟨after, rfl⟩

theorem Orderly.outcome (orderly : validator.Orderly)
    (h : validator.Returns oracle document (.obj after)) (mem : rule ∈ validator.rules) :
    ∃ members, document = .obj members ∧ rule.Outcome oracle members after := by
  obtain ⟨members, rfl⟩ := Validator.isObject_of_returns h
  obtain ⟨-, _, rewrites, same⟩ := orderly.returns_obj_iff.1 h
  cases same
  exact ⟨members, rfl, rewrites.outcome orderly.nodup_names mem⟩

theorem Orderly.returns_self_iff (orderly : validator.Orderly)
    (h : validator.Returns oracle document (.obj after)) :
    validator.Returns oracle (.obj after) (.obj after) ↔
      ∀ rule ∈ validator.rules, rule.Outcome oracle after after := by
  constructor
  · intro again rule mem
    obtain ⟨_, same, outcome⟩ := orderly.outcome again mem
    cases same
    exact outcome
  · intro each
    obtain ⟨members, rfl⟩ := Validator.isObject_of_returns h
    obtain ⟨known, _, rewrites, same⟩ := orderly.returns_obj_iff.1 h
    cases same
    refine orderly.returns_obj_iff.2 ⟨?_, after, .refl each, rfl⟩
    intro strict key mem
    obtain declared | mem := List.mem_append.1 (rewrites.keys_subset mem)
    · exact declared
    · exact known strict key mem

theorem lasting_obj_iff :
    validator.Lasting oracle (.obj after) ↔
      ∀ rule ∈ validator.rules, (after.get? rule.name = none → rule.StaysAbsent oracle) ∧
        ∀ out, after.get? rule.name = some out →
          ∀ head embedding nested, rule = .embedded head embedding nested →
            ∀ document, embedding.Contains out document → nested.Lasting oracle document := by
  constructor
  · intro lasting rule mem
    refine ⟨lasting _ _ _ .refl mem, ?_⟩
    intro out found head embedding nested same document contains inner members other reaches
    subst same
    exact lasting inner members other (.embedded mem found contains reaches)
  · intro each inner members rule reaches mem absent
    cases reaches with
    | refl => exact (each rule mem).1 absent
    | embedded outer found contains reaches =>
      exact (each _ outer).2 _ found _ _ _ rfl _ contains inner members rule reaches mem absent

theorem Idempotent.of_embedded {head : FieldHead} {embedding : Embedding}
    (idempotent : validator.Idempotent) (mem : .embedded head embedding nested ∈ validator.rules) :
    nested.Idempotent :=
  fun inner head checks occurs => idempotent inner head checks (.embedded mem occurs)

end Validator

theorem Embedding.not_contains_null {embedding : Embedding} {document : Json} :
    ¬ embedding.Contains .null document := by
  intro contains
  cases contains

namespace FieldRule

variable (orderly : ∀ head embedding nested, rule = .embedded head embedding nested →
  nested.Orderly)

include orderly

theorem Returns.again_iff (fixed : ∀ ask ∈ oracle, ask.Fixed)
    (idempotent : ∀ head checks, rule = .value head checks → Check.Idempotent checks)
    (h : rule.Returns oracle value out) :
    rule.Returns oracle out out ↔
      ∀ head embedding nested, rule = .embedded head embedding nested →
        ∀ document, embedding.Contains out document → nested.Returns oracle document document := by
  cases h with
  | null optional =>
    refine iff_of_true (.null optional) ?_
    intro _ _ _ _ document contains
    exact absurd contains Embedding.not_contains_null
  | value passed =>
    refine iff_of_true (.value (idempotent _ _ rfl _ _ passed)) ?_
    intro _ _ _ same
    cases same
  | @embedded head embedding nested _ _ returns =>
    have again := returns.again_iff fixed fun _ _ => (orderly _ _ _ rfl).isObject_of_returns
    constructor
    · intro returns' _ _ _ same
      cases same
      cases returns' with
      | null optional =>
        intro document contains
        exact absurd contains Embedding.not_contains_null
      | embedded returns' => exact again.1 returns'
    · intro each
      exact .embedded (again.2 (each _ _ _ rfl))

theorem Returns.of_contains {head : FieldHead} {embedding : Embedding} {nested : Validator}
    {document : Json} (h : rule.Returns oracle value out)
    (same : rule = .embedded head embedding nested) (contains : embedding.Contains out document) :
    ∃ old, nested.Returns oracle old document := by
  cases h with
  | null optional => exact absurd contains Embedding.not_contains_null
  | value passed => cases same
  | embedded returns =>
    cases same
    exact returns.of_contains (fun _ _ => (orderly _ _ _ rfl).isObject_of_returns) contains

end FieldRule

namespace Validator

variable {validator inner : Validator} {document document' : Json}

theorem Returns.of_reaches (orderly : validator.Orderly)
    (h : validator.Returns oracle document out) (reaches : validator.Reaches out inner document') :
    ∃ old, inner.Returns oracle old document' ∧ inner.Orderly ∧ inner.Occurs validator := by
  -- On the path, along which every document on the way was returned by its own validator.
  induction reaches generalizing document with
  | refl => exact ⟨document, h, orderly, .refl⟩
  | @embedded validator nested target members head embedding value held last rule found contains
      reaches ih =>
    obtain ⟨before, rfl, outcome⟩ := orderly.outcome h rule
    obtain ⟨given, returns⟩ := outcome.exists_returns found
    obtain ⟨old, returned⟩ := returns.of_contains (orderly.of_mem rule) rfl contains
    obtain ⟨last, returned', orderly', occurs⟩ := ih (orderly.of_embedded rule) returned
    exact ⟨last, returned', orderly', .embedded rule occurs⟩

/-- A validated document is validated again without change if and only if nothing that it lacks will
be added. -/
theorem Orderly.returns_again_iff (orderly : validator.Orderly)
    (idempotent : validator.Idempotent) (fixed : ∀ ask ∈ oracle, ask.Fixed)
    (h : validator.Returns oracle document out) :
    validator.Returns oracle out out ↔ validator.Lasting oracle out := by
  induction orderly generalizing document out with
  | @intro typeName rejectsUnknown rules nodup nested ih =>
    have orderly : (Validator.mk typeName rejectsUnknown rules).Orderly := .intro nodup nested
    obtain ⟨after, rfl⟩ := orderly.isObject_of_returns h
    rw [orderly.returns_self_iff h, lasting_obj_iff]
    refine forall₂_congr fun rule mem => ?_
    obtain ⟨members, -, outcome⟩ := orderly.outcome h mem
    rw [outcome.again_iff]
    refine and_congr_right fun _ => forall₂_congr fun out found => ?_
    obtain ⟨value, returns⟩ := outcome.exists_returns found
    have settled : ∀ head checks, rule = .value head checks → Check.Idempotent checks := by
      intro head checks same
      exact idempotent _ head checks .refl (same ▸ mem)
    rw [returns.again_iff (orderly.of_mem mem) fixed settled]
    -- The nested validator returned each document in the field, so `ih` is about those.
    refine forall₄_congr fun head embedding inner same => forall₂_congr fun document contains => ?_
    obtain ⟨old, returned⟩ := returns.of_contains (orderly.of_mem mem) same contains
    have rule_mem : .embedded head embedding inner ∈ rules := same ▸ mem
    exact ih head embedding inner rule_mem (idempotent.of_embedded rule_mem) returned

end Validator

end DocModel
