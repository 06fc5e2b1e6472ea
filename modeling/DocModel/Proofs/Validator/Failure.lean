import DocModel.Proofs.Clean.Reach
import DocModel.Proofs.Compile.Resolved
import DocModel.Proofs.Validator.Inversion
import DocModel.Validator.Validate

namespace DocModel

/-- A field fails on its own: it is missing, or what is given for it fails its rule. -/
inductive FieldRule.Fails (rule : FieldRule) (location : Location) (members : Json.Members) :
    List Violation → Prop
  | missing (absent : members.get? rule.name = none) (undefaulted : rule.head.default = none)
    (required : rule.head.required = true) :
    Fails rule location members [⟨location ++ [.key rule.name], .missingKey⟩]
  | wrong {value : Json} {violations : List Violation}
    (given : rule.head.given? members = some value)
    (failed : rule.check (location ++ [.key rule.name]) value = .error violations) :
    Fails rule location members violations

/-- The violations are what a map of documents reports that is met in the document. -/
inductive Validator.ThroughMap : Validator → Json → List Violation → Prop
  | here {validator nested : Validator} {head : FieldHead} {model : Option String}
    {members entries : Json.Members} {location : Location} {violations : List Violation}
    (rule : .embedded head (.keyed model) nested ∈ validator.rules)
    (given : head.given? members = some (.obj entries))
    (failed : (FieldRule.embedded head (.keyed model) nested).check location (.obj entries) =
      .error violations) :
    ThroughMap validator (.obj members) violations
  | inside {validator nested : Validator} {head : FieldHead} {embedding : Embedding}
    {members : Json.Members} {value document : Json} {violations : List Violation}
    (rule : .embedded head embedding nested ∈ validator.rules)
    (given : head.given? members = some value) (contains : embedding.Contains value document)
    (through : ThroughMap nested document violations) :
    ThroughMap validator (.obj members) violations

section

variable {rules : List FieldRule} {rule : FieldRule} {location : Location}
  {members after : Json.Members} {violations : List Violation}

theorem fill_eq_error_iff :
    rule.head.fill (fun value => rule.check (location ++ [.key rule.name]) value)
        (location ++ [.key rule.name]) members = .error violations ↔
      rule.Fails location members violations := by
  rw [FieldHead.fill_eq_error]
  constructor
  · intro failed
    obtain ⟨value, given, failed⟩ | ⟨missing, required, rfl⟩ := failed
    · exact .wrong given failed
    · obtain ⟨absent, undefaulted⟩ := FieldHead.given?_eq_none_iff.1 missing
      exact .missing absent undefaulted required
  · intro fails
    cases fails with
    | missing absent undefaulted required =>
      exact .inr ⟨FieldHead.given?_eq_none_iff.2 ⟨absent, undefaulted⟩, required, rfl⟩
    | wrong given failed => exact .inl ⟨_, given, failed⟩

theorem FieldRule.Fails.congr {other : Json.Members} (h : rule.Fails location members violations)
    (same : other.get? rule.name = members.get? rule.name) :
    rule.Fails location other violations := by
  cases h with
  | missing absent undefaulted required => exact .missing (same.trans absent) undefaulted required
  | wrong given failed => exact .wrong ((FieldHead.given?_congr same).trans given) failed

/-- The rules stop at the first field that fails, and report what it reports on its own. -/
theorem first_of_checkRules (nodup : (rules.map FieldRule.name).Nodup)
    (h : checkRules rules location members = .error violations) :
    ∃ before rule rest, rules = before ++ rule :: rest ∧
      (∀ other ∈ before, ∀ others, ¬ other.Fails location members others) ∧
      rule.Fails location members violations := by
  induction rules generalizing members with
  | nil => cases h
  | cons rule rules ih =>
    rw [List.map_cons, List.nodup_cons] at nodup
    rw [checkRules] at h
    cases filled : rule.head.fill (fun value => rule.check (location ++ [.key rule.name]) value)
        (location ++ [.key rule.name]) members with
    | error failures =>
      rw [filled] at h
      cases h
      exact ⟨[], rule, rules, rfl, by simp, fill_eq_error_iff.1 filled⟩
    | ok between =>
      rw [filled] at h
      obtain ⟨before, first, rest, rfl, sound, fails⟩ := ih nodup.2 h
      have same := get?_of_fill_of_mem nodup.1 filled
      refine ⟨rule :: before, first, rest, rfl, ?_, ?_⟩
      · intro other mem others failed
        cases mem with
        | head =>
          rw [fill_eq_error_iff.2 failed] at filled
          cases filled
        | tail _ mem =>
          exact sound other mem others (failed.congr (same other (List.mem_append_left _ mem)))
      · have mem : first ∈ before ++ first :: rest := by simp
        exact fails.congr (same first mem).symm

theorem not_fails_of_checkRules (nodup : (rules.map FieldRule.name).Nodup)
    (h : checkRules rules location members = .ok after) (mem : rule ∈ rules) :
    ¬ rule.Fails location members violations := by
  induction rules generalizing members with
  | nil => cases mem
  | cons first rules ih =>
    rw [List.map_cons, List.nodup_cons] at nodup
    obtain ⟨between, filled, rest⟩ := checkRules_cons_eq_ok.1 h
    intro fails
    cases mem with
    | head =>
      rw [fill_eq_error_iff.2 fails] at filled
      cases filled
    | tail _ mem =>
      have same := get?_of_fill_of_mem nodup.1 filled rule mem
      exact ih nodup.2 rest mem (fails.congr same)

/-- What the check adds is declared, so the first other key is one of the document. -/
theorem find?_of_checkRules (nodup : (rules.map FieldRule.name).Nodup)
    (h : checkRules rules location members = .ok after) :
    after.keys.find? (!(rules.map FieldRule.name).contains ·) =
      members.keys.find? (!(rules.map FieldRule.name).contains ·) := by
  have known : ((rules.filter (·.head.isFilled members)).map FieldRule.name).find?
      (!(rules.map FieldRule.name).contains ·) = none := by
    rw [List.find?_eq_none]
    intro name mem
    obtain ⟨rule, listed, rfl⟩ := List.mem_map.1 mem
    have declared := List.mem_map_of_mem (f := FieldRule.name) (List.mem_filter.1 listed).1
    simpa using declared
  rw [keys_of_checkRules_eq nodup h, List.find?_append, known, Option.or_none]

/-- An object is refused for its first field that fails or, if none does, for its first key that is
not declared. -/
theorem Validator.Orderly.refused {validator : Validator} (orderly : validator.Orderly)
    (h : validator.check location (.obj members) = .error violations) :
    (∃ before rule rest, validator.rules = before ++ rule :: rest ∧
      (∀ other ∈ before, ∀ others, ¬ other.Fails location members others) ∧
      rule.Fails location members violations) ∨
    (∀ rule ∈ validator.rules, ∀ others, ¬ rule.Fails location members others) ∧
      validator.rejectsUnknown = true ∧
      ∃ key, members.keys.find? (!validator.fieldNames.contains ·) = some key ∧
        violations = [⟨location ++ [.key key], .wrongKey⟩] := by
  cases orderly with
  | @intro typeName rejectsUnknown rules nodup nested =>
    rw [Validator.check] at h
    cases checked : checkRules rules location members with
    | error failures =>
      rw [checked] at h
      cases h
      exact .inl (first_of_checkRules nodup checked)
    | ok after =>
      rw [checked] at h
      right
      refine ⟨fun rule mem others => not_fails_of_checkRules nodup checked mem, ?_⟩
      cases rejectsUnknown with
      | false => cases h
      | true =>
        refine ⟨rfl, ?_⟩
        rw [Validator.fieldNames, Validator.rules, ← find?_of_checkRules nodup checked]
        simp only [bind, Except.bind, if_true] at h
        split at h
        · rename_i key unknown
          cases h
          exact ⟨key, unknown, rfl⟩
        · cases h

end

namespace Embedding

variable {document : Location → Json → Checked Json} {location : Location}
  {violations : List Violation}

theorem exists_of_checkItems_eq_error {index : Nat} {items : List Json}
    (h : checkItems document location index items = .error violations) :
    ∃ item ∈ items, ∃ place, document place item = .error violations := by
  induction items generalizing index with
  | nil => cases h
  | cons item items ih =>
    rw [checkItems] at h
    cases first : document (location ++ [.index index]) item with
    | error failures =>
      rw [first] at h
      cases h
      exact ⟨item, List.mem_cons_self, _, first⟩
    | ok out =>
      rw [first] at h
      cases rest : checkItems document location (index + 1) items with
      | error failures =>
        simp only [bind, Except.bind, rest] at h
        cases h
        obtain ⟨other, mem, place, failed⟩ := ih rest
        exact ⟨other, List.mem_cons_of_mem _ mem, place, failed⟩
      | ok outs =>
        simp only [bind, Except.bind, rest] at h
        cases h

theorem ne_nil_of_checkEntries_eq_error {entries : Json.Members}
    (told : ∀ place value others, document place value = .error others → others ≠ [])
    (h : checkEntries document location entries = .error violations) : violations ≠ [] := by
  induction entries generalizing violations with
  | nil => cases h
  | cons entry entries ih =>
    rw [checkEntries] at h
    split at h
    · cases h
    · rename_i rest
      cases h
      exact ih rest
    · rename_i first _
      cases h
      simpa using told _ _ _ first
    · rename_i first _
      cases h
      simp [told _ _ _ first]

end Embedding

/-- A refusal says something, and says several things only of a map. -/
structure Validator.Reports (validator : Validator) (document : Json)
    (violations : List Violation) : Prop where
  ne_nil : violations ≠ []
  several : 1 < violations.length → validator.ThroughMap document violations

variable {validator : Validator} {location : Location} {members : Json.Members} {value : Json}
  {violation : Violation} {violations : List Violation}

theorem Validator.reports_singleton (validator : Validator) (document : Json)
    (violation : Violation) : validator.Reports document [violation] :=
  ⟨by simp, by simp⟩

theorem Validator.Reports.inside {nested : Validator} {head : FieldHead} {embedding : Embedding}
    {document : Json} (rule : .embedded head embedding nested ∈ validator.rules)
    (given : head.given? members = some value) (contains : embedding.Contains value document)
    (h : nested.Reports document violations) : validator.Reports (.obj members) violations :=
  ⟨h.ne_nil, fun several => .inside rule given contains (h.several several)⟩

theorem Embedding.reports {nested : Validator} {head : FieldHead} {embedding : Embedding}
    (rule : .embedded head embedding nested ∈ validator.rules)
    (given : head.given? members = some value)
    (sound : ∀ location document violations, nested.check location document = .error violations →
      nested.Reports document violations)
    (h : (FieldRule.embedded head embedding nested).check location value = .error violations) :
    validator.Reports (.obj members) violations := by
  have whole := h
  rw [FieldRule.check] at h
  split at h
  · cases h
  · cases embedding with
    | one =>
      cases value with
      | obj document => exact .inside rule given .one (sound _ _ _ h)
      | _ =>
        cases h
        exact validator.reports_singleton _ _
    | many =>
      cases value with
      | obj document => exact .inside rule given .single (sound _ _ _ h)
      | arr items =>
        obtain ⟨item, mem, place, failed⟩ := exists_of_checkItems_eq_error (map_eq_error.1 h)
        exact .inside rule given (.item mem) (sound _ _ _ failed)
      | _ =>
        cases h
        exact validator.reports_singleton _ _
    | keyed model =>
      cases value with
      | obj entries =>
        constructor
        · apply ne_nil_of_checkEntries_eq_error _ (map_eq_error.1 h)
          intro place value others failed
          exact (sound _ _ _ failed).ne_nil
        · intro several
          exact .here rule given whole
      | _ =>
        cases h
        exact validator.reports_singleton _ _

theorem FieldRule.Fails.reports {rule : FieldRule} (mem : rule ∈ validator.rules)
    (sound : ∀ head embedding nested, rule = .embedded head embedding nested →
      ∀ location document violations, nested.check location document = .error violations →
        nested.Reports document violations)
    (h : rule.Fails location members violations) :
    validator.Reports (.obj members) violations := by
  cases h with
  | missing absent undefaulted required => exact validator.reports_singleton _ _
  | @wrong value _ given failed =>
    cases rule with
    | value head checks =>
      rw [FieldRule.check] at failed
      split at failed
      · cases failed
      · cases applied : Check.applyAll checks value with
        | error problem =>
          rw [applied] at failed
          cases failed
          exact validator.reports_singleton _ _
        | ok out =>
          rw [applied] at failed
          cases failed
    | embedded head embedding nested =>
      exact Embedding.reports mem given (sound _ _ _ rfl) failed

theorem Validator.Orderly.reports (orderly : validator.Orderly) {document : Json}
    (h : validator.check location document = .error violations) :
    validator.Reports document violations := by
  induction orderly generalizing location document violations with
  | @intro typeName rejectsUnknown rules nodup nested ih =>
    cases document with
    | obj members =>
      obtain ⟨before, rule, rest, split, -, fails⟩ | ⟨-, -, key, -, rfl⟩ :=
        (Validator.Orderly.intro nodup nested).refused h
      · have mem : rule ∈ rules := by
          change rules = before ++ rule :: rest at split
          simp [split]
        apply fails.reports mem
        intro head embedding inner same location document violations
        exact ih head embedding inner (same ▸ mem)
      · exact Validator.reports_singleton _ _ _
    | _ =>
      cases h
      exact Validator.reports_singleton _ _ _

theorem Validator.ofViolations?_of_reject {activities : List Activity} {rejection : Rejection}
    (told : violations ≠ [])
    (h : (validator.reject violations activities).result = .error rejection) :
    Rejection.ofViolations? validator.typeName violations = some rejection := by
  cases violations with
  | nil => exact absurd rfl told
  | cons first rest =>
    cases h
    rfl

/-- What a compiled validator refuses an object for: its first field that fails on its own, with what
that field reports, or else its first undeclared key. There are several violations only of a map.
The refusal of a document is made of those of the check or of the one that stopped the cleanup. -/
theorem refused_for_first_failure {compiler : Compiler} (given : compiler.Gives validator) :
    (∀ (location : Location) (members : Json.Members) (violations : List Violation),
      validator.check location (.obj members) = .error violations →
        violations ≠ [] ∧
        ((∃ before rule rest, validator.rules = before ++ rule :: rest ∧
            (∀ other ∈ before, ∀ others, ¬ other.Fails location members others) ∧
            rule.Fails location members violations) ∨
          (∀ rule ∈ validator.rules, ∀ others, ¬ rule.Fails location members others) ∧
            validator.rejectsUnknown = true ∧
            ∃ key, members.keys.find? (!validator.fieldNames.contains ·) = some key ∧
              violations = [⟨location ++ [.key key], .wrongKey⟩]) ∧
        (1 < violations.length → validator.ThroughMap (.obj members) violations)) ∧
    ∀ (oracle : Option Oracle) (document : Json) (rejection : Rejection),
      (validator.validate oracle document).result = .error rejection →
        ∃ violations, Rejection.ofViolations? validator.typeName violations = some rejection ∧
          (validator.check [] document = .error violations ∨
            ∃ checked violation sweep, validator.check [] document = .ok checked ∧
              (validator.clean oracle [] checked).run {} = .error violation sweep ∧
              violations = [violation]) := by
  constructor
  · intro location members violations failed
    obtain ⟨told, several⟩ := given.orderly.reports failed
    exact ⟨told, given.orderly.refused failed, several⟩
  · intro oracle document rejection refused
    rw [Validator.validate] at refused
    cases checked : validator.check [] document with
    | error violations =>
      rw [checked] at refused
      have told := (given.orderly.reports checked).ne_nil
      exact ⟨violations, Validator.ofViolations?_of_reject told refused, .inl rfl⟩
    | ok passed =>
      rw [checked] at refused
      dsimp only at refused
      cases cleaned : (validator.clean oracle [] passed).run {} with
      | error violation sweep =>
        rw [cleaned] at refused
        exact ⟨[violation], Validator.ofViolations?_of_reject (by simp) refused,
          .inr ⟨passed, violation, sweep, rfl, cleaned, rfl⟩⟩
      | ok document sweep =>
        rw [cleaned] at refused
        cases refused

/-- Baskets of things by their numbers, each of an amount. -/
def baskets : Compiler where
  source := Registry.source ⟨[
    ("Basket", .obj [
      ("properties", .obj [
        ("total", .obj [("type", .str "int"), ("required", .bool true)])]),
      ("relations", .obj [
        ("things", .obj [("type", .str "embedsManyAsObject"), ("model", .str "Thing")]),
        ("spares", .obj [("type", .str "embedsMany"), ("model", .str "Thing")])])]),
    ("Thing", .obj [("properties", .obj [
      ("amount", .obj [("type", .str "int"), ("required", .bool true)])])])]⟩

/-- A basket of things and spares without amounts, and with a member that is not declared. -/
def basket : Json.Members :=
  [("colour", .str "red"), ("spares", .arr [.obj []]),
    ("things", .obj [("1", .obj []), ("2", .obj [("amount", .num (.int 4))]), ("3", .obj [])]),
    ("total", .num (.int 3))]

theorem refused_for_first_failure_basket :
    ∃ validator violations, baskets.Gives validator ∧
      validator.check [] (.obj basket) = .error violations ∧
      violations.map Violation.path = ["things.1.amount", "things.3.amount"] ∧
      validator.ThroughMap (.obj basket) violations ∧
      ∃ before rule rest, validator.rules = before ++ rule :: rest ∧
        (∀ other ∈ before, ∀ others, ¬ other.Fails [] basket others) ∧
        rule.Fails [] basket violations := by
  have ran : (baskets.compile 0 "Basket").result.toOption.any fun compiled =>
      match compiled.validator.check [] (.obj basket) with
      | .ok _ => false
      | .error violations =>
        violations.map Violation.path = ["things.1.amount", "things.3.amount"] := by
    decide +kernel
  obtain ⟨compiled, given, tested⟩ := Compiler.exists_gives_of_any ran
  cases failed : compiled.validator.check [] (.obj basket) with
  | ok checked =>
    rw [failed] at tested
    cases tested
  | error violations =>
    rw [failed] at tested
    have paths := of_decide_eq_true tested
    have two : violations.length = 2 := by
      simpa using congrArg List.length paths
    obtain ⟨-, reason, several⟩ := (refused_for_first_failure given).1 _ _ _ failed
    refine ⟨_, violations, given, failed, paths, several (by omega), ?_⟩
    obtain first | ⟨-, -, key, -, rfl⟩ := reason
    · exact first
    · cases two

end DocModel
