import DocModel.Proofs.Location.Leaf
import DocModel.Proofs.Validator.Entries

namespace DocModel

theorem Problem.message_eq_entryText (leaf : String) (problem : Problem) :
    problem.message leaf = entryText problem.entryKeys (problem.core.message leaf) := by
  induction problem with
  | inEntry key problem ih => exact congrArg (fun text => s!"Invalid key '{key}': {text}") ih
  | _ => rfl

theorem entryText_inj {keys : List String} {text other : String} :
    entryText keys text = entryText keys other ↔ text = other := by
  induction keys with
  | nil => rfl
  | cons key keys ih =>
    rw [← ih]
    exact String.append_right_inj _

theorem Violation.message_eq_entryText_iff {violation : Violation} {text : String} :
    violation.message = entryText violation.problem.entryKeys text ↔
      violation.problem.core.message (leafName violation.path) = text := by
  rw [message, Problem.message_eq_entryText, entryText_inj]

/-- A key is missing or not declared, or a value is of the wrong type. -/
def Problem.isOfKey : Problem → Bool
  | missingKey | wrongKey | mismatch .. => true
  | _ => false

theorem Problem.message_inj_of_isOfKey {problem : Problem} (h : problem.isOfKey)
    {leaf key : String} : problem.message leaf = problem.message key ↔ leaf = key := by
  cases problem with
  | missingKey =>
    change s!"Missing key '{leaf}'" = s!"Missing key '{key}'" ↔ _
    rw [String.append_left_inj, String.append_right_inj]
    exact .rfl
  | wrongKey =>
    change s!"Wrong key '{leaf}'" = s!"Wrong key '{key}'" ↔ _
    rw [String.append_left_inj, String.append_right_inj]
    exact .rfl
  | mismatch expected actual =>
    change s!"Key '{leaf}' error: {actual} should be instance of '{expected}'" =
      s!"Key '{key}' error: {actual} should be instance of '{expected}'" ↔ _
    simp only [String.append_left_inj, String.append_right_inj]
    exact .rfl
  | _ => cases h

namespace Location

theorem exists_lastKey? (name : String) (rest : Location) :
    ∃ last, Location.lastKey? (.key name :: rest) = some last := by
  induction rest using List.reverseRecOn with
  | nil => exact ⟨name, rfl⟩
  | append_singleton rest step ih =>
    rw [← List.cons_append]
    cases step with
    | key other => exact ⟨other, lastKey?_concat_key _ other⟩
    | index i =>
      rw [lastKey?_concat_index]
      exact ih

theorem eq_empty_of_render {location : Location} {key : String}
    (last : location.lastKey? = some key) (unwritten : location.render = "") : key = "" := by
  induction location using List.reverseRecOn with
  | nil => cases last
  | append_singleton location step ih =>
    rw [render_concat] at unwritten
    cases step with
    | key name =>
      rw [lastKey?_concat_key] at last
      cases last
      by_cases begun : Location.render location = ""
      · rwa [begun] at unwritten
      · exact absurd unwritten (extend_ne_empty begun _)
    | index i => simp [extend_index] at unwritten

end Location

/-- The key for which a violation is raised in a document: it is missing or not declared in an
object there, or a rule tells something against its value, or its value is, or is a list that holds,
what should be a document and is none. -/
inductive Validator.Raises (validator : Validator) (document : Json) (key : String)
    (violation : Violation) : Prop
  | ofKey {steps : Location} {keys : List String} {inner : Validator} {object : Json.Members}
    {problem : Problem} (descends : validator.Descends document steps keys inner (.obj object))
    (refuses : inner.Refuses steps (.obj object) ⟨steps ++ [.key key], problem⟩)
    (told : violation = Violation.inEntries keys ⟨steps ++ [.key key], problem⟩)
  | ofDocument {steps : Location} {keys : List String} {inner : Validator} {reached : Json}
    {cause : Violation} (descends : validator.Descends document steps keys inner reached)
    (last : steps.lastKey? = some key) (form : ∀ object, reached ≠ .obj object)
    (refuses : inner.Refuses steps reached cause) (told : violation = cause.inEntries keys)

namespace Validator

variable {validator inner : Validator} {document reached : Json} {steps : Location}
  {keys : List String} {key : String} {violation : Violation} {violations : List Violation}
  {members : Json.Members}

theorem Descends.exists_lastKey?
    (descends : validator.Descends (.obj members) steps keys inner reached)
    (form : ∀ object, reached ≠ .obj object) : ∃ key, steps.lastKey? = some key := by
  cases descends with
  | here => exact absurd rfl (form members)
  | inside => exact Location.exists_lastKey? _ _

theorem Orderly.exists_raises (orderly : validator.Orderly)
    (h : validator.check [] (.obj members) = .error violations) (mem : violation ∈ violations) :
    ∃ key, validator.Raises (.obj members) key violation := by
  obtain ⟨steps, keys, inner, reached, cause, descends, refuses, told⟩ := orderly.located h mem
  rw [List.nil_append] at refuses
  cases refuses with
  | notObject form =>
    obtain ⟨key, last⟩ := descends.exists_lastKey? form
    exact ⟨key, .ofDocument descends last form (.notObject form) told⟩
  | missing declared absent undefaulted required =>
    exact ⟨_, .ofKey descends (.missing declared absent undefaulted required) told⟩
  | unknown strict held undeclared =>
    exact ⟨_, .ofKey descends (.unknown strict held undeclared) told⟩
  | value declared given tested failed =>
    exact ⟨_, .ofKey descends (.value declared given tested failed) told⟩
  | form declared given tested misfit =>
    exact ⟨_, .ofKey descends (.form declared given tested misfit) told⟩

/-- A violation is at the key for which it is raised, or at a place without a written path, where
the root is named instead. -/
theorem Raises.last (h : validator.Raises document key violation) :
    violation.location.lastKey? = some key ∨ key = "" ∧ violation.location = Location.root := by
  cases h with
  | ofKey descends refuses told =>
    rw [told, Violation.location_inEntries]
    exact .inl (Location.lastKey?_concat_key _ _)
  | ofDocument descends last form refuses told =>
    rw [told, Violation.location_inEntries]
    cases refuses with
    | notObject =>
      rw [Location.ofDocument]
      split
      · rename_i unwritten
        exact .inr ⟨Location.eq_empty_of_render last (String.isEmpty_iff.1 unwritten), rfl⟩
      · exact .inl last
    | missing => exact absurd rfl (form _)
    | unknown => exact absurd rfl (form _)
    | value => exact absurd rfl (form _)
    | form => exact absurd rfl (form _)

theorem Raises.leafName_eq_iff (h : validator.Raises document key violation) :
    leafName violation.path = key ↔
      '.' ∉ key.toList ∧ '[' ∉ key.toList ∧ ¬ (key = "" ∧ violation.path = "$root") := by
  obtain last | ⟨rfl, rooted⟩ := h.last
  · rw [Violation.path, Location.leafName_render last, leafName_eq_self_iff, ← and_assoc]
    apply Iff.symm
    apply and_iff_left
    rintro ⟨rfl, rooted⟩
    have leaf := Location.leafName_render last
    rw [rooted] at leaf
    exact absurd leaf (by decide +kernel)
  · rw [Violation.path, rooted]
    apply iff_of_false
    · decide +kernel
    · rintro ⟨-, -, notRoot⟩
      exact notRoot ⟨rfl, by decide +kernel⟩

theorem Raises.names_iff (h : validator.Raises document key violation) {problem : Problem}
    (core : violation.problem.core = problem) (ofKey : problem.isOfKey) :
    violation.message = entryText violation.problem.entryKeys (problem.message key) ↔
      '.' ∉ key.toList ∧ '[' ∉ key.toList ∧ ¬ (key = "" ∧ violation.path = "$root") := by
  rw [Violation.message_eq_entryText_iff, core, Problem.message_inj_of_isOfKey ofKey,
    h.leafName_eq_iff]

end Validator

theorem Rejection.violations_of_ofViolations? {typeName : String} {violations : List Violation}
    {rejection : Rejection} (h : ofViolations? typeName violations = some rejection) :
    rejection.violations = violations := by
  cases violations with
  | nil => cases h
  | cons first rest =>
    cases h
    rfl

/-- What a message says of a missing, an undeclared or a mistyped key names it if and only if it has
no point and no bracket, and is not the empty key of a document for whose place the root stands. -/
theorem violations_name_key_iff {compiler : Compiler} {validator : Validator}
    {oracle : Option Oracle} {document : Json} {rejection : Rejection}
    (given : compiler.Gives validator)
    (rejected : (validator.validate oracle document).result = .error rejection) :
    ∀ violation ∈ rejection.violations,
      (∀ members, document = .obj members →
        (∃ key, validator.Raises document key violation) ∨
          ∃ checked, validator.check [] document = .ok checked) ∧
      ∀ key, validator.Raises document key violation →
        let told (text : String) :=
          violation.message = entryText violation.problem.entryKeys text
        let kept := '.' ∉ key.toList ∧ '[' ∉ key.toList ∧
          ¬ (key = "" ∧ violation.path = "$root")
        (violation.problem.core = .missingKey → (told s!"Missing key '{key}'" ↔ kept)) ∧
        (violation.problem.core = .wrongKey → (told s!"Wrong key '{key}'" ↔ kept)) ∧
        ∀ expected actual, violation.problem.core = .mismatch expected actual →
          (told s!"Key '{key}' error: {actual} should be instance of '{expected}'" ↔ kept) := by
  intro violation mem
  constructor
  · rintro members rfl
    obtain ⟨violations, made, failed | ⟨checked, _, _, passed, -, -⟩⟩ :=
      (refused_for_first_failure given).2 oracle _ rejection rejected
    · rw [Rejection.violations_of_ofViolations? made] at mem
      exact .inl (given.orderly.exists_raises failed mem)
    · exact .inr ⟨checked, passed⟩
  · intro key raises
    refine ⟨?_, ?_, ?_⟩
    · intro missing
      exact raises.names_iff missing rfl
    · intro wrong
      exact raises.names_iff wrong rfl
    · intro expected actual mistyped
      exact raises.names_iff mistyped rfl

/-- The key of the first violation and its problem, if a validator fails an object. -/
def Validator.firstKey? (validator : Validator) (members : Json.Members) :
    Option (Option String × Problem) :=
  match validator.check [] (.obj members) with
  | .error (first :: _) => some (first.location.lastKey?, first.problem)
  | _ => none

theorem Validator.exists_rejected {compiler : Compiler} {validator : Validator} {key : String}
    {members : Json.Members} {problem : Problem} (given : compiler.Gives validator)
    (first : validator.firstKey? members = some (some key, problem)) (named : key ≠ "$root") :
    ∃ rejection violation, (validator.validate none (.obj members)).result = .error rejection ∧
      violation ∈ rejection.violations ∧ violation.problem = problem ∧
      violation.location.lastKey? = some key ∧
      validator.Raises (.obj members) key violation := by
  rw [firstKey?] at first
  split at first
  · rename_i violation rest failed
    obtain ⟨last, rfl⟩ := Prod.mk.inj (Option.some.inj first)
    obtain ⟨other, raises⟩ := given.orderly.exists_raises failed List.mem_cons_self
    obtain rfl : other = key := by
      obtain same | ⟨-, rooted⟩ := raises.last
      · exact Option.some.inj (same.symm.trans last)
      · rw [rooted] at last
        exact absurd (Option.some.inj last).symm named
    refine ⟨⟨validator.typeName, violation, rest⟩, violation, ?_, List.mem_cons_self, rfl, last,
      raises⟩
    rw [validate, failed]
    rfl
  · cases first

theorem violations_name_key_iff_baskets :
    ∃ validator rejection violation, baskets.Gives validator ∧
      (validator.validate none (.obj emptyHanded)).result = .error rejection ∧
      violation ∈ rejection.violations ∧ violation.problem.core = .missingKey ∧
      validator.Raises (.obj emptyHanded) "amount" violation ∧
      violation.message = entryText ["1"] "Missing key 'amount'" := by
  have ran : (baskets.compile 0 "Basket").result.toOption.any fun compiled =>
      compiled.validator.firstKey? emptyHanded =
        some (some "amount", .inEntry "1" .missingKey) := by
    decide +kernel
  obtain ⟨compiled, given, tested⟩ := Compiler.exists_gives_of_any ran
  obtain ⟨rejection, violation, rejected, mem, problem, -, raises⟩ :=
    Validator.exists_rejected given (of_decide_eq_true tested) (by decide)
  obtain ⟨-, named⟩ := violations_name_key_iff given rejected violation mem
  obtain ⟨missing, -, -⟩ := named "amount" raises
  have core : violation.problem.core = .missingKey := by rw [problem]; rfl
  have told := (missing core).2 ⟨by decide, by decide, fun both => absurd both.1 (by decide)⟩
  rw [problem] at told
  exact ⟨_, rejection, violation, given, rejected, mem, core, raises, told⟩

/-- Of an undeclared key with a point, only what is behind the point is named. -/
theorem undeclared_key_cut_at_point :
    ∃ validator rejection violation, notedPages.Gives validator ∧
      (validator.validate none (.obj [("a.b", .num (.int 1))])).result = .error rejection ∧
      violation ∈ rejection.violations ∧ violation.problem.core = .wrongKey ∧
      validator.Raises (.obj [("a.b", .num (.int 1))]) "a.b" violation ∧
      violation.message = "Wrong key 'b'" ∧
      violation.message ≠ entryText violation.problem.entryKeys "Wrong key 'a.b'" := by
  have ran : (notedPages.compile 0 "Note").result.toOption.any fun compiled =>
      compiled.validator.firstKey? [("a.b", .num (.int 1))] = some (some "a.b", .wrongKey) := by
    decide +kernel
  obtain ⟨compiled, given, tested⟩ := Compiler.exists_gives_of_any ran
  obtain ⟨rejection, violation, rejected, mem, problem, last, raises⟩ :=
    Validator.exists_rejected given (of_decide_eq_true tested) (by decide)
  have message : violation.message = "Wrong key 'b'" := by
    rw [Violation.message, problem, Violation.path, Location.leafName_render last]
    decide +kernel
  refine ⟨_, rejection, violation, given, rejected, mem, ?_, raises, message, ?_⟩
  · rw [problem]
    rfl
  · rw [message, problem]
    decide +kernel

end DocModel
