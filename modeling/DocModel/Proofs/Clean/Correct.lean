import DocModel.Proofs.Clean.Rules
import DocModel.Proofs.Compile.Resolved

namespace DocModel

variable {oracle : Option Oracle} {rule : FieldRule} {members : Json.Members} {value : Json}

theorem Validator.answered_obj_iff {validator : Validator} :
    validator.Answered oracle (.obj members) ↔
      ∀ rule ∈ validator.rules, ∀ value, members.get? rule.name = some value →
        rule.Answered oracle value := by
  constructor
  · intro answered rule mem value found head embedding nested same
    cases same
    constructor
    · intro inner contains model entries holds
      cases holds with
      | intro reaches rule found' =>
        exact answered model entries (.intro (.embedded mem found contains reaches) rule found')
    · intro model entries same same'
      cases same
      cases same'
      exact answered model entries (.intro .refl mem found)
  · intro answered model entries holds
    cases holds with
    | intro reaches rule found =>
      cases reaches with
      | refl => exact (answered _ rule _ found _ _ _ rfl).keys model entries rfl rfl
      | embedded rule' found' contains reaches =>
        exact (answered _ rule' _ found' _ _ _ rfl).documents _ contains model entries
          (.intro reaches rule found)

theorem Validator.answered_of_not_obj {validator : Validator} {document : Json}
    (h : ∀ members, document ≠ .obj members) : validator.Answered oracle document := by
  intro model entries holds
  cases holds with
  | intro reaches rule found =>
    cases reaches with
    | refl => exact absurd rfl (h _)
    | embedded => exact absurd rfl (h _)

theorem FieldRule.clean_yields (location : Location)
    (sound : ∀ head embedding nested, rule = .embedded head embedding nested →
      ∀ inner, embedding.Contains value inner → ∀ location,
        (nested.clean oracle location inner).Yields (nested.Answered oracle inner)
          (nested.cleaned oracle inner)) :
    (rule.clean oracle location value).Yields (rule.Answered oracle value)
      (rule.cleaned oracle value) := by
  cases rule with
  | value head checks =>
    apply Cleaning.Yields.pure_of
    intro _ _ _ same
    cases same
  | embedded head embedding nested =>
    rw [FieldRule.clean, FieldRule.cleaned]
    apply (Embedding.clean_yields location (sound head embedding nested rfl)).congr _ rfl
    constructor
    · intro answered head embedding nested same
      cases same
      exact answered
    · intro answered
      exact answered head embedding nested rfl

/-- Cleaning succeeds if and only if the oracle answers, and then gives the cleaned document. -/
theorem Validator.Orderly.clean_yields {validator : Validator} {document : Json}
    (orderly : validator.Orderly) (distinct : document.Distinct) (location : Location) :
    (validator.clean oracle location document).Yields (validator.Answered oracle document)
      (validator.cleaned oracle document) := by
  induction orderly generalizing document location with
  | @intro typeName rejectsUnknown rules nodup nested ih =>
    cases document with
    | obj members =>
      cases distinct with
      | obj distinct each =>
        have sound : ∀ rule ∈ rules, ∀ value, Json.Members.get? members rule.name = some value →
            ∀ location, (rule.clean oracle location value).Yields (rule.Answered oracle value)
              (rule.cleaned oracle value) := by
          intro rule mem value found location
          apply FieldRule.clean_yields
          intro head embedding nested same inner contains location
          have held := each _ (Json.Members.mem_of_get? found)
          exact ih head embedding nested (same ▸ mem) (contains.distinct held) location
        rw [Validator.clean, Validator.answered_obj_iff, cleaned_obj]
        exact (cleanRules_yields location nodup distinct sound).map Json.obj
    | _ =>
      apply Cleaning.Yields.pure_of
      apply Validator.answered_of_not_obj
      intro members same
      cases same

/-- Cleaning by a compiled validator succeeds if and only if the oracle answers for every map of ids
that is reached and has a key that is an id. It then gives the cleaned document, in which no field
has a value to be removed and no map of ids a key that the oracle does not know. A document that is
read is distinct by `Json.distinct_of_parse`. -/
theorem clean_correct {compiler : Compiler} {validator : Validator} {document : Json}
    (given : compiler.Gives validator) (distinct : document.Distinct) (oracle : Option Oracle)
    (location : Location) (sweep : Sweep) :
    ((∃ cleaned after, (validator.clean oracle location document).run sweep = .ok cleaned after) ↔
      ∀ model entries, validator.HoldsIds document model entries →
        (∃ key ∈ entries.keys, ∃ id, keyId? key = some id) →
          ∃ existing, Answers oracle model entries.keys existing) ∧
    ∀ cleaned after, (validator.clean oracle location document).run sweep = .ok cleaned after →
      cleaned = validator.cleaned oracle document ∧
      (∀ inner members rule value, validator.Reaches cleaned inner (.obj members) →
        rule ∈ inner.rules → Json.Members.get? members rule.name = some value →
          ¬ value.isAmong rule.head.removeIf) ∧
      ∀ model entries key, validator.HoldsIds cleaned model entries → key ∈ entries.keys →
        ∃ original existing id, validator.HoldsIds document model original ∧
          key ∈ original.keys ∧ Answers oracle model original.keys existing ∧
          keyId? key = some id ∧ id ∈ existing := by
  have yields : (validator.clean oracle location document).Yields
      (validator.Answered oracle document) (validator.cleaned oracle document) :=
    given.orderly.clean_yields distinct location
  constructor
  · exact yields.succeeds_iff sweep
  · intro cleaned after run
    have same := yields.result_eq run
    subst same
    refine ⟨rfl, ?_, ?_⟩
    · intro inner members rule value reaches mem found
      exact not_isAmong_of_reaches_cleaned given.orderly distinct reaches mem found
    · intro model entries key holds mem
      obtain ⟨original, holds', listed, known⟩ :=
        isKnown_of_holdsIds_cleaned given.orderly distinct holds mem
      obtain ⟨existing, id, answers, parsed, exists_⟩ := isKnown_iff.1 known
      exact ⟨original, existing, id, holds', listed, answers, parsed, exists_⟩

/-- Shelves of things by their ids, each thing with a state. -/
def shelves : Compiler where
  source := Registry.source ⟨[
    ("Shelf", .obj [("relations", .obj [
      ("things", .obj [("type", .str "embedsManyAsObject"), ("model", .str "Thing"),
        ("key", .obj [("autoclean", .bool true), ("type", .str "model"),
          ("model", .str "thing")])])])]),
    ("Thing", .obj [("properties", .obj [
      ("state", .obj [("type", .str "string"), ("deleteKeyIfValueIn", .arr [.str "draft"])])])])]⟩

def shelf : Json :=
  .obj [("things", .obj [
    (" 7", .obj [("state", .str "draft")]), ("8", .obj [("state", .str "sold")]),
    ("+7", .obj [("state", .str "new")]), ("seven", .obj [])])]

/-- Only the thing of id 7 exists. -/
def things : Oracle := (EntityStore.mk [("thing", [7])]).oracle

theorem shelf_distinct : shelf.Distinct := by
  have thing : ∀ state, Json.Distinct (.obj [("state", .str state)]) := by
    intro state
    apply Json.Distinct.obj (by simp [Json.Members.keys])
    simp [Json.Distinct.str]
  have none : Json.Distinct (.obj []) := .obj .nil (by simp)
  apply Json.Distinct.obj (by decide)
  simp only [List.forall_mem_singleton]
  apply Json.Distinct.obj (by decide)
  simp [thing, none]

theorem clean_correct_shelf :
    ∃ validator, shelves.Gives validator ∧
      (∃ after, (validator.clean (some things) [] shelf).run {} =
        .ok (.obj [("things", .obj [(" 7", .obj []), ("+7", .obj [("state", .str "new")])])])
          after) ∧
      ∀ model entries, validator.HoldsIds shelf model entries →
        (∃ key ∈ entries.keys, ∃ id, keyId? key = some id) →
          ∃ existing, Answers (some things) model entries.keys existing := by
  have ran : (shelves.compile 0 "Shelf").result.toOption.any fun compiled =>
      match (compiled.validator.clean (some things) [] shelf).run {} with
      | .ok cleaned _ => cleaned ==
        .obj [("things", .obj [(" 7", .obj []), ("+7", .obj [("state", .str "new")])])]
      | .error _ _ => false := by
    decide +kernel
  cases result : (shelves.compile 0 "Shelf").result with
  | error error =>
    rw [result] at ran
    cases ran
  | ok compiled =>
    rw [result] at ran
    obtain ⟨succeeds, -⟩ :=
      clean_correct (.compile result) shelf_distinct (some things) [] {}
    cases run : (compiled.validator.clean (some things) [] shelf).run {} with
    | error violation after =>
      rw [Except.toOption, Option.any_some, run] at ran
      cases ran
    | ok cleaned after =>
      rw [Except.toOption, Option.any_some, run] at ran
      obtain rfl := beq_iff_eq.1 ran
      exact ⟨_, .compile result, ⟨after, run⟩, succeeds.1 ⟨_, after, run⟩⟩

end DocModel
