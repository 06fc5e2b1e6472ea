import Mathlib.Data.List.Nodup
import DocModel.Proofs.Location
import DocModel.Proofs.Validator.Located

namespace DocModel

namespace Problem

/-- The keys of the map entries that a problem says it is in, outermost first. -/
def entryKeys : Problem → List String
  | inEntry key problem => key :: problem.entryKeys
  | _ => []

/-- The problem itself, whichever map entries it is in. -/
def core : Problem → Problem
  | inEntry _ problem => problem.core
  | problem => problem

/-- A problem of a value that is there and in whose place another value could stand. -/
def isOfValue : Problem → Bool
  | mismatch .. | belowMin .. | aboveMax .. | tooShort .. | tooLong .. | notAChoice ..
  | incompletePoint | coordinate .. | pointText .. => true
  | _ => false

variable {problem : Problem}

theorem core_of_isOfValue (h : problem.isOfValue) : problem.core = problem := by
  cases problem <;> first | rfl | cases h

theorem entryKeys_of_isOfValue (h : problem.isOfValue) : problem.entryKeys = [] := by
  cases problem <;> first | rfl | cases h

end Problem

theorem Violation.problem_inEntries (keys : List String) (violation : Violation) :
    (violation.inEntries keys).problem = keys.foldr .inEntry violation.problem := by
  induction keys with
  | nil => rfl
  | cons key keys ih =>
    rw [inEntries, List.foldr_cons, List.foldr_cons, ← ih]
    rfl

theorem Violation.core_inEntries (keys : List String) (violation : Violation) :
    (violation.inEntries keys).problem.core = violation.problem.core := by
  rw [problem_inEntries]
  induction keys with
  | nil => rfl
  | cons key keys ih => exact ih

theorem Violation.entryKeys_inEntries (keys : List String) (violation : Violation) :
    (violation.inEntries keys).problem.entryKeys = keys ++ violation.problem.entryKeys := by
  rw [problem_inEntries]
  induction keys with
  | nil => rfl
  | cons key keys ih =>
    rw [List.foldr_cons, Problem.entryKeys, ih]
    rfl

theorem isOfValue_of_trimPoint {members : Json.Members} {problem : Problem}
    (h : trimPoint members = .error problem) : problem.isOfValue := by
  unfold trimPoint at h
  split at h
  · rename_i lat lng _ _
    obtain h | ⟨_, -, h⟩ := bind_eq_error.1 h
    · unfold checkCoordinate at h
      split at h <;> cases h
      rfl
    · obtain h | ⟨_, -, h⟩ := bind_eq_error.1 h
      · unfold checkCoordinate at h
        split at h <;> cases h
        rfl
      · obtain h | ⟨_, -, h⟩ := bind_eq_error.1 h
        · unfold checkPointText at h
          split at h <;> cases h
          rfl
        · cases h
  · cases h
    rfl

theorem Check.isOfValue_of_apply {check : Check} {value : Json} {problem : Problem}
    (h : check.apply value = .error problem) : problem.isOfValue := by
  unfold apply at h
  split at h
  · cases value with
    | obj members => exact isOfValue_of_trimPoint (map_eq_error.1 h)
    | _ =>
      cases h
      rfl
  · split at h <;> cases h
    rfl
  · rename_i bound limit
    split at h
    · split at h <;> cases h
      cases bound <;> rfl
    · cases h
      rfl
  · rename_i bound limit
    split at h <;> cases h
    cases bound <;> rfl
  · split at h <;> cases h
    rfl

theorem Check.isOfValue_of_applyAll {checks : List Check} {value : Json} {problem : Problem}
    (h : applyAll checks value = .error problem) : problem.isOfValue := by
  have each : ∀ value (check : Check) problem, True → check.apply value = .error problem →
      problem.isOfValue = true := fun _ _ _ _ failed => isOfValue_of_apply failed
  exact foldlM_error (P := fun _ => True) (fun _ _ _ _ _ => trivial) each h trivial

theorem Embedding.isOfValue_of_misfit? {embedding : Embedding} {value : Json} {problem : Problem}
    (h : embedding.misfit? value = some problem) : problem.isOfValue := by
  unfold misfit? at h
  split at h <;> cases h <;> rfl

/-- Every key in the value, at whatever depth, passes the test. -/
inductive Json.EveryKey (test : String → Prop) : Json → Prop
  | null : EveryKey test .null
  | bool (value : Bool) : EveryKey test (.bool value)
  | num (value : Json.Number) : EveryKey test (.num value)
  | str (value : String) : EveryKey test (.str value)
  | arr {items : List Json} (each : ∀ item ∈ items, EveryKey test item) : EveryKey test (.arr items)
  | obj {members : Json.Members} (keys : ∀ key ∈ members.keys, test key)
    (each : ∀ member ∈ members, EveryKey test member.2) : EveryKey test (.obj members)

theorem Json.EveryKey.of_get? {test : String → Prop} {members : Json.Members} {key : String}
    {value : Json} (h : (Json.obj members).EveryKey test) (found : members.get? key = some value) :
    value.EveryKey test := by
  cases h with
  | obj keys each => exact each _ (Json.Members.mem_of_get? found)

theorem Json.EveryKey.of_mem {test : String → Prop} {members : Json.Members} {key : String}
    (h : (Json.obj members).EveryKey test) (mem : key ∈ members.keys) : test key := by
  cases h with
  | obj keys each => exact keys key mem

/-- The names of the fields are plain, here and in all that is embedded, and so are the keys in the
defaults of the fields that embed. -/
structure Validator.Plain (validator : Validator) : Prop where
  names : ∀ inner : Validator, inner.Occurs validator → ∀ name ∈ inner.fieldNames, isPlain name
  defaults : ∀ inner : Validator, inner.Occurs validator → ∀ head embedding nested value,
    .embedded head embedding nested ∈ inner.rules → head.default = some value →
      value.EveryKey (isPlain ·)

theorem Embedding.Locates.plain {embedding : Embedding} {value document : Json} {steps : Location}
    {keys : List String} (locates : embedding.Locates value steps keys document)
    (plain : value.EveryKey (isPlain ·)) :
    steps.Plain ∧ document.EveryKey (isPlain ·) := by
  cases locates with
  | one => exact ⟨by simp [Location.Plain], plain⟩
  | single => exact ⟨by simp [Location.Plain], plain⟩
  | item found =>
    cases plain with
    | arr each => exact ⟨by simp [Location.Plain, Step.Plain], each _ (List.mem_of_getElem? found)⟩
  | entry mem =>
    cases plain with
    | obj keys each =>
      have named := keys _ (List.mem_map_of_mem mem)
      exact ⟨by simpa [Location.Plain, Step.Plain] using named, each _ mem⟩

namespace Validator

variable {validator inner inner' : Validator} {document document' reached reached' : Json}
  {steps steps' tail tail' : Location} {keys keys' : List String}

theorem Plain.of_occurs (h : validator.Plain) (occurs : inner.Occurs validator) : inner.Plain where
  names deeper occurs' := h.names deeper (occurs'.trans occurs)
  defaults deeper occurs' := h.defaults deeper (occurs'.trans occurs)

theorem Descends.plain (descends : validator.Descends document steps keys inner reached)
    (plain : validator.Plain) (every : document.EveryKey (isPlain ·)) :
    steps.Plain ∧ reached.EveryKey (isPlain ·) := by
  induction descends with
  | here => exact ⟨by simp [Location.Plain], every⟩
  | @inside validator nested inner head embedding members value document reached steps rest keys
      others rule given locates descends ih =>
    have named : isPlain head.name := plain.names _ .refl _ (List.mem_map_of_mem rule)
    have value : value.EveryKey (isPlain ·) := by
      obtain found | ⟨-, default⟩ := Option.or_eq_some_iff.1 given
      · exact every.of_get? found
      · exact plain.defaults _ .refl _ _ _ _ rule default
    obtain ⟨into, held⟩ := locates.plain value
    obtain ⟨below, met⟩ := ih (plain.of_occurs (.embedded rule .refl)) held
    refine ⟨?_, met⟩
    intro step mem
    rw [List.cons_append, List.mem_cons, List.mem_append] at mem
    obtain rfl | mem | mem := mem
    · exact named
    · exact into step mem
    · exact below step mem

/-- The steps of a violation behind the document that it is of: a key or nothing. -/
def EndsAt (tail : Location) : Prop := tail = [] ∨ ∃ key, tail = [.key key]

theorem Descends.ne_index (descends : validator.Descends document steps keys inner reached)
    (ends : EndsAt tail) (i : Nat) (rest : Location) : steps ++ tail ≠ .index i :: rest := by
  cases descends with
  | here => obtain rfl | ⟨key, rfl⟩ := ends <;> simp
  | inside => simp

end Validator

theorem Embedding.Locates.keys_unique {embedding : Embedding}
    {value value' document document' : Json}
    {steps steps' rest rest' : Location} {keys keys' : List String}
    (locates : embedding.Locates value steps keys document)
    (locates' : embedding.Locates value' steps' keys' document')
    (notIndex : ∀ i behind, rest ≠ .index i :: behind)
    (notIndex' : ∀ i behind, rest' ≠ .index i :: behind) (h : steps ++ rest = steps' ++ rest') :
    keys = keys' ∧ rest = rest' := by
  cases locates with
  | one =>
    cases locates' with
    | one => exact ⟨rfl, h⟩
  | single =>
    cases locates' with
    | single => exact ⟨rfl, h⟩
    | item => exact absurd h (notIndex _ _)
  | item =>
    cases locates' with
    | single => exact absurd h.symm (notIndex' _ _)
    | item => exact ⟨rfl, (List.cons.inj h).2⟩
  | entry =>
    cases locates' with
    | entry =>
      obtain ⟨same, behind⟩ := List.cons.inj h
      cases same
      exact ⟨rfl, behind⟩

namespace Validator

variable {validator inner inner' : Validator} {document document' reached reached' : Json}
  {steps steps' tail tail' : Location} {keys keys' : List String}

theorem Descends.keys_eq_nil (descends : validator.Descends document steps keys inner reached)
    (ends : EndsAt tail') (h : steps ++ tail = tail') : keys = [] := by
  cases descends with
  | here => rfl
  | @inside _ nested _ head embedding members value document _ first rest around others rule given
      locates descends =>
    -- After the field's own key no step is left, so nothing else was passed.
    have short : first ++ rest ++ tail = [] := by
      obtain rfl | ⟨key, rfl⟩ := ends
      · cases h
      · exact (List.cons.inj h).2
    obtain ⟨passed, -⟩ := List.append_eq_nil_iff.1 short
    obtain ⟨rfl, rfl⟩ := List.append_eq_nil_iff.1 passed
    cases locates <;> cases descends <;> rfl

/-- Where a violation is tells which entries of maps it is in. -/
theorem Descends.keys_unique (orderly : validator.Orderly)
    (descends : validator.Descends document steps keys inner reached)
    (descends' : validator.Descends document' steps' keys' inner' reached')
    (ends : EndsAt tail) (ends' : EndsAt tail') (h : steps ++ tail = steps' ++ tail') :
    keys = keys' := by
  induction descends generalizing document' steps' keys' with
  | here => rw [descends'.keys_eq_nil ends h.symm]
  | @inside validator nested inner head embedding members value document reached first rest keys
      others rule given locates descends ih =>
    cases descends' with
    | here => exact (Descends.inside rule given locates descends).keys_eq_nil ends' h
    | @inside _ nested' _ head' embedding' members' value' document' _ first' rest' around' others'
        rule' given' locates' descends' =>
      simp only [List.cons_append, List.append_assoc, List.cons.injEq] at h
      obtain ⟨same, below⟩ := h
      have alike : FieldRule.embedded head embedding nested = .embedded head' embedding' nested' :=
        List.inj_on_of_nodup_map orderly.nodup_names rule rule' (Step.key.inj same)
      cases alike
      obtain ⟨rfl, behind⟩ := locates.keys_unique locates' (descends.ne_index ends)
        (descends'.ne_index ends') below
      rw [ih (orderly.of_embedded rule) descends' behind]

end Validator

theorem Embedding.check_of_misfit? {embedding : Embedding} {value : Json} {problem : Problem}
    (misfit : embedding.misfit? value = some problem) (document : Location → Json → Checked Json)
    (location : Location) :
    embedding.check document location value = .error [⟨location, problem⟩] := by
  cases embedding <;> cases value <;> first | cases misfit; rfl | cases misfit

theorem Location.ofDocument_of_plain {location : Location} (plain : location.Plain)
    (nonempty : location ≠ []) : location.ofDocument = location := by
  rw [ofDocument, if_neg]
  intro empty
  have none : (render []).isEmpty := rfl
  rw [String.isEmpty_iff] at empty none
  exact nonempty (render_inj plain (by simp [Plain]) (empty.trans none.symm))

namespace Validator

variable {validator inner : Validator} {document reached : Json} {location steps : Location}
  {members object : Json.Members} {keys : List String} {violation : Violation}
  {violations : List Violation}

/-- What is said against a document is that a key is missing or wrong, or is said of a value. -/
theorem Refuses.problem_cases (h : validator.Refuses location document violation) :
    violation.problem = .missingKey ∨ violation.problem = .wrongKey ∨
      violation.problem.isOfValue := by
  cases h with
  | notObject form => exact .inr (.inr rfl)
  | missing => exact .inl rfl
  | unknown => exact .inr (.inl rfl)
  | value mem given tested failed => exact .inr (.inr (Check.isOfValue_of_applyAll failed))
  | form mem given tested misfit => exact .inr (.inr (Embedding.isOfValue_of_misfit? misfit))

theorem Refuses.core_eq (h : validator.Refuses location document violation) :
    violation.problem.core = violation.problem := by
  obtain missing | wrong | ofValue := h.problem_cases
  · rw [missing, Problem.core]
    simp
  · rw [wrong, Problem.core]
    simp
  · exact Problem.core_of_isOfValue ofValue

theorem Refuses.entryKeys_eq (h : validator.Refuses location document violation) :
    violation.problem.entryKeys = [] := by
  obtain missing | wrong | ofValue := h.problem_cases
  · rw [missing, Problem.entryKeys]
    simp
  · rw [wrong, Problem.entryKeys]
    simp
  · exact Problem.entryKeys_of_isOfValue ofValue

theorem Refuses.exists_tail (h : validator.Refuses location document violation)
    (plain : validator.Plain) (every : document.EveryKey (isPlain ·)) (way : location.Plain)
    (inside : location ≠ [] ∨ ∃ members, document = .obj members) :
    ∃ tail, EndsAt tail ∧ Location.Plain tail ∧ violation.location = location ++ tail := by
  have key : ∀ name, isPlain name → ∃ tail, EndsAt tail ∧ Location.Plain tail ∧
      location ++ [.key name] = location ++ tail := by
    intro name named
    refine ⟨[.key name], .inr ⟨name, rfl⟩, ?_, rfl⟩
    simpa [Location.Plain, Step.Plain] using named
  have declared : ∀ rule ∈ validator.rules, isPlain rule.name :=
    fun rule mem => plain.names _ .refl _ (List.mem_map_of_mem mem)
  cases h with
  | notObject form =>
    obtain nonempty | ⟨members, rfl⟩ := inside
    · refine ⟨[], .inl rfl, by simp [Location.Plain], ?_⟩
      rw [List.append_nil]
      exact Location.ofDocument_of_plain way nonempty
    · exact absurd rfl (form members)
  | missing mem => exact key _ (declared _ mem)
  | unknown strict mem => exact key _ (every.of_mem mem)
  | value mem => exact key _ (declared _ mem)
  | form mem => exact key _ (declared _ mem)

theorem Refuses.exists_missing (h : validator.Refuses location document violation)
    (missing : violation.problem = .missingKey) :
    ∃ (object : Json.Members) (rule : FieldRule), document = .obj object ∧
      violation.location = location ++ [.key rule.name] ∧ rule ∈ validator.rules ∧
      rule.head.required = true ∧ rule.head.default = none ∧ object.get? rule.name = none := by
  cases h with
  | @missing rule object mem absent undefaulted required =>
    exact ⟨object, rule, rfl, rfl, mem, required, undefaulted, absent⟩
  | value mem given tested failed =>
    cases missing
    cases Check.isOfValue_of_applyAll failed
  | form mem given tested misfit =>
    cases missing
    cases Embedding.isOfValue_of_misfit? misfit
  | notObject form => cases missing
  | unknown => cases missing

theorem Refuses.exists_unknown (h : validator.Refuses location document violation)
    (wrong : violation.problem = .wrongKey) :
    ∃ (object : Json.Members) (key : String), document = .obj object ∧
      violation.location = location ++ [.key key] ∧ key ∈ object.keys ∧
      key ∉ validator.fieldNames := by
  cases h with
  | @unknown object key strict mem undeclared => exact ⟨object, key, rfl, rfl, mem, undeclared⟩
  | value mem given tested failed =>
    cases wrong
    cases Check.isOfValue_of_applyAll failed
  | form mem given tested misfit =>
    cases wrong
    cases Embedding.isOfValue_of_misfit? misfit
  | notObject form => cases wrong
  | missing => cases wrong

theorem Refuses.exists_value (h : validator.Refuses location document violation)
    (notMissing : violation.problem ≠ .missingKey) (notWrong : violation.problem ≠ .wrongKey) :
    (∃ object rule value, document = .obj object ∧
      violation.location = location ++ [.key rule.name] ∧ rule ∈ validator.rules ∧
      rule.head.given? object = some value ∧
      rule.check violation.location value = .error [violation]) ∨
    (∀ object, document ≠ .obj object) ∧ violation.location = location.ofDocument := by
  cases h with
  | missing => exact absurd rfl notMissing
  | unknown => exact absurd rfl notWrong
  | @value head checks object value problem mem given tested failed =>
    refine .inl ⟨object, .value head checks, value, rfl, rfl, mem, given, ?_⟩
    exact FieldRule.check_value_eq_error.2 ⟨tested, _, failed, rfl⟩
  | @form head embedding nested object value problem mem given tested misfit =>
    refine .inl ⟨object, .embedded head embedding nested, value, rfl, rfl, mem, given, ?_⟩
    exact FieldRule.check_embedded_eq_error.2 ⟨tested, Embedding.check_of_misfit? misfit _ _⟩
  | notObject form => exact .inr ⟨form, rfl⟩

/-- Where in a plain document each violation is: a document in it that is refused, and a key of that
document or none. -/
theorem Orderly.placed (orderly : validator.Orderly) (plain : validator.Plain)
    (every : (Json.obj members).EveryKey (isPlain ·))
    (h : validator.check [] (.obj members) = .error violations) (mem : violation ∈ violations) :
    ∃ steps keys inner reached cause tail,
      validator.Descends (.obj members) steps keys inner reached ∧
      inner.Refuses steps reached cause ∧ violation = cause.inEntries keys ∧ EndsAt tail ∧
      cause.location = steps ++ tail ∧ Location.Plain (steps ++ tail) := by
  obtain ⟨steps, keys, inner, reached, cause, descends, refuses, rfl⟩ := orderly.located h mem
  rw [List.nil_append] at refuses
  obtain ⟨way, held⟩ := descends.plain plain every
  have inside : steps ≠ [] ∨ ∃ members, reached = .obj members := by
    cases descends with
    | here => exact .inr ⟨members, rfl⟩
    | inside => exact .inl (by simp)
  obtain ⟨tail, ends, below, placed⟩ :=
    refuses.exists_tail (plain.of_occurs descends.occurs) held way inside
  refine ⟨steps, keys, inner, reached, cause, tail, descends, refuses, rfl, ends, placed, ?_⟩
  intro step mem
  exact (List.mem_append.1 mem).elim (way step) (below step)

/-- The steps lead to a key, be it there or not, of an object in the document. -/
def DescendsToKey (validator : Validator) (document : Json) (location : Location)
    (inner : Validator) (object : Json.Members) (key : String) : Prop :=
  ∃ steps keys, validator.Descends document steps keys inner (.obj object) ∧
    location = steps ++ [.key key]

/-- The path of a violation can be read in one way, and leads to the failure it tells of: to an
object that lacks a required key or holds an undeclared one, to a value that fails the rule of its
field, or to what is no object where a document is due. Defaults are read in the place of absent
fields. Violations in different entries of maps have different paths. -/
theorem paths_lead_to_failures {compiler : Compiler} (given : compiler.Gives validator)
    (plain : validator.Plain) (every : (Json.obj members).EveryKey (isPlain ·))
    (h : validator.check [] (.obj members) = .error violations) :
    (∀ violation ∈ violations,
      (violation.location.Plain ∧ ∀ other : Location, other.Plain →
        other.render = violation.path → other = violation.location) ∧
      (violation.problem.core = .missingKey → ∃ inner object rule,
        validator.DescendsToKey (.obj members) violation.location inner object rule.name ∧
        rule ∈ inner.rules ∧ rule.head.required = true ∧ rule.head.default = none ∧
        object.get? rule.name = none) ∧
      (violation.problem.core = .wrongKey → ∃ inner object key,
        validator.DescendsToKey (.obj members) violation.location inner object key ∧
        key ∈ object.keys ∧ key ∉ inner.fieldNames) ∧
      (violation.problem.core ≠ .missingKey → violation.problem.core ≠ .wrongKey →
        (∃ inner object rule value,
          validator.DescendsToKey (.obj members) violation.location inner object rule.name ∧
          rule ∈ inner.rules ∧ rule.head.given? object = some value ∧
          rule.check violation.location value =
            .error [⟨violation.location, violation.problem.core⟩]) ∨
        ∃ keys inner reached,
          validator.Descends (.obj members) violation.location keys inner reached ∧
          ∀ object, reached ≠ .obj object)) ∧
    ∀ first ∈ violations, ∀ second ∈ violations,
      first.problem.entryKeys ≠ second.problem.entryKeys → first.path ≠ second.path := by
  constructor
  · intro violation mem
    obtain ⟨steps, keys, inner, reached, cause, tail, descends, refuses, rfl, ends, placed, way⟩ :=
      given.orderly.placed plain every h mem
    rw [Violation.core_inEntries, Violation.location_inEntries, refuses.core_eq]
    refine ⟨⟨?_, ?_⟩, ?_, ?_, ?_⟩
    · rwa [placed]
    · intro other plain' read
      rw [Violation.path, Violation.location_inEntries, placed] at read
      rw [placed]
      exact Location.render_inj plain' way read
    · intro missing
      obtain ⟨object, rule, rfl, below, declared⟩ := refuses.exists_missing missing
      exact ⟨inner, object, rule, ⟨steps, keys, descends, below⟩, declared⟩
    · intro wrong
      obtain ⟨object, key, rfl, below, held⟩ := refuses.exists_unknown wrong
      exact ⟨inner, object, key, ⟨steps, keys, descends, below⟩, held⟩
    · intro notMissing notWrong
      obtain ⟨object, rule, value, rfl, below, declared, found, failed⟩ | ⟨form, here⟩ :=
        refuses.exists_value notMissing notWrong
      · exact .inl ⟨inner, object, rule, value, ⟨steps, keys, descends, below⟩, declared, found,
          failed⟩
      · have nonempty : steps ≠ [] := by
          rintro rfl
          cases descends
          exact form members rfl
        have plainWay : steps.Plain := fun step mem => way step (List.mem_append_left _ mem)
        rw [here, Location.ofDocument_of_plain plainWay nonempty]
        exact .inr ⟨keys, inner, reached, descends, form⟩
  · intro first mem second mem' apart same
    obtain ⟨steps, keys, inner, reached, cause, tail, descends, refuses, rfl, ends, placed, way⟩ :=
      given.orderly.placed plain every h mem
    obtain ⟨steps', keys', inner', reached', cause', tail', descends', refuses', rfl, ends',
      placed', way'⟩ := given.orderly.placed plain every h mem'
    rw [Violation.path, Violation.path, Violation.location_inEntries,
      Violation.location_inEntries, placed, placed'] at same
    have alike := descends.keys_unique given.orderly descends' ends ends'
      (Location.render_inj way way' same)
    rw [Violation.entryKeys_inEntries, Violation.entryKeys_inEntries, refuses.entryKeys_eq,
      refuses'.entryKeys_eq, alike] at apart
    exact apart rfl

end Validator

theorem Json.everyKey_obj_iff {test : String → Prop} {members : Json.Members} :
    (Json.obj members).EveryKey test ↔
      (∀ key ∈ members.keys, test key) ∧ ∀ member ∈ members, member.2.EveryKey test := by
  constructor
  · intro every
    cases every with
    | obj keys each => exact ⟨keys, each⟩
  · intro both
    exact .obj both.1 both.2

/-- The names of all fields are plain, and no field that embeds has a default. -/
def FieldRule.isPlain (rule : FieldRule) : Bool :=
  DocModel.isPlain rule.name && (rule.nested?.isNone || rule.head.default.isNone)

theorem Validator.plain_of_everyRule {validator : Validator}
    (h : validator.everyRule FieldRule.isPlain) : validator.Plain where
  names := by
    intro inner occurs name mem
    obtain ⟨rule, declared, rfl⟩ := List.mem_map.1 mem
    exact (Bool.and_eq_true_iff.1 (test_of_everyRule h occurs declared)).1
  defaults := by
    intro inner occurs head embedding nested value rule default
    have tested := (Bool.and_eq_true_iff.1 (test_of_everyRule h occurs rule)).2
    simp [FieldRule.nested?, FieldRule.head, default] at tested

/-- A basket of two things without amounts. -/
def emptyHanded : Json.Members :=
  [("things", .obj [("1", .obj []), ("3", .obj [])]), ("total", .num (.int 3))]

theorem paths_lead_to_failures_baskets :
    ∃ validator first second, baskets.Gives validator ∧
      validator.check [] (.obj emptyHanded) = .error [first, second] ∧
      first.path = "things.1.amount" ∧ second.path = "things.3.amount" ∧
      first.path ≠ second.path ∧
      ∃ inner object rule,
        validator.DescendsToKey (.obj emptyHanded) first.location inner object rule.name ∧
        rule ∈ inner.rules ∧ rule.head.required = true ∧
        Json.Members.get? object rule.name = none := by
  have ran : (baskets.compile 0 "Basket").result.toOption.any fun compiled =>
      compiled.validator.everyRule FieldRule.isPlain &&
      (errorOf? (compiled.validator.check [] (.obj emptyHanded))).map (·.map fun violation =>
        (violation.path, violation.problem.core, violation.problem.entryKeys)) ==
          some [("things.1.amount", .missingKey, ["1"]),
            ("things.3.amount", .missingKey, ["3"])] := by
    decide +kernel
  obtain ⟨compiled, given, tested⟩ := Compiler.exists_gives_of_any ran
  obtain ⟨plain, shown⟩ := Bool.and_eq_true_iff.1 tested
  obtain ⟨violations, failed, shown⟩ := Option.map_eq_some_iff.1 (beq_iff_eq.1 shown)
  obtain ⟨first, others, rfl, one, shown⟩ := List.map_eq_cons_iff.1 shown
  obtain ⟨second, others, rfl, three, shown⟩ := List.map_eq_cons_iff.1 shown
  obtain rfl := List.map_eq_nil_iff.1 shown
  rw [errorOf?_eq_some] at failed
  simp only [Prod.mk.injEq] at one three
  have every : (Json.obj emptyHanded).EveryKey (isPlain ·) := by
    simp [emptyHanded, Json.everyKey_obj_iff, Json.EveryKey.num, Json.Members.keys]
    decide
  obtain ⟨each, apart⟩ := Validator.paths_lead_to_failures given
    (Validator.plain_of_everyRule plain) every failed
  obtain ⟨-, lacks, -⟩ := each first List.mem_cons_self
  obtain ⟨inner, object, rule, descends, declared, required, -, absent⟩ := lacks one.2.1
  refine ⟨_, first, second, given, failed, one.1, three.1, ?_,
    inner, object, rule, descends, declared, required, absent⟩
  apply apart _ List.mem_cons_self _ (List.mem_cons_of_mem _ List.mem_cons_self)
  rw [one.2.2, three.2.2]
  decide

theorem Validator.Descends.exists_rule {validator inner : Validator} {document reached : Json}
    {name : String} {rest : Location} {keys : List String}
    (descends : validator.Descends document (.key name :: rest) keys inner reached) :
    ∃ head embedding nested value document first below others,
      .embedded head embedding nested ∈ validator.rules ∧ head.name = name ∧
      embedding.Locates value first others document ∧ rest = first ++ below ∧
      ∃ keys, nested.Descends document below keys inner reached := by
  generalize same : Step.key name :: rest = steps at descends
  cases descends with
  | here => cases same
  | inside rule given locates descends =>
    cases same
    exact ⟨_, _, _, _, _, _, _, _, rule, rfl, locates, rfl, _, descends⟩

/-- Pages whose note, when absent, is one with an undeclared key that has a point. -/
def notedPages : Compiler where
  source := Registry.source ⟨[
    ("Page", .obj [("relations", .obj [("note", .obj [
      ("type", .str "embedsOne"), ("model", .str "Note"),
      ("default", .obj [("a.b", .num (.int 1))])])])]),
    ("Note", .obj [("properties", .obj [("text", .obj [("type", .str "string")])])])]⟩

/-- Whether the name of a field is plain and the field, if it embeds, is a single note. -/
def isNoteOrPlain (rule : FieldRule) : Bool :=
  isPlain rule.name && rule.nested?.all fun nested => nested.1 == .one && rule.name == "note"

theorem Validator.Descends.false_of_noted {validator inner : Validator} {document reached : Json}
    {keys : List String} (noted : validator.everyRule isNoteOrPlain)
    (descends : validator.Descends document [.key "note", .key "a"] keys inner reached) :
    False := by
  obtain ⟨head, embedding, nested, value, document, first, below, others, rule, -, locates,
    below_eq, keys, descends⟩ := descends.exists_rule
  have single := (Bool.and_eq_true_iff.1 (Validator.test_of_everyRule noted .refl rule)).2
  simp only [FieldRule.nested?, Option.all_some, Bool.and_eq_true, beq_iff_eq] at single
  obtain ⟨rfl, -⟩ := single
  cases locates
  rw [List.nil_append] at below_eq
  subst below_eq
  obtain ⟨head, embedding, nested, value, document, first, below, others, rule', named, -⟩ :=
    descends.exists_rule
  have single := (Bool.and_eq_true_iff.1
    (Validator.test_of_everyRule noted (.embedded rule .refl) rule')).2
  simp only [FieldRule.nested?, Option.all_some, Bool.and_eq_true, beq_iff_eq] at single
  rw [show head.name = "note" from single.2] at named
  exact absurd named (by decide)

/-- The keys of a default can have points as well, and then a path is read as another one. -/
theorem path_into_default_misleads :
    ∃ validator violation, notedPages.Gives validator ∧
      (∀ inner : Validator, inner.Occurs validator → ∀ name ∈ inner.fieldNames, isPlain name) ∧
      (Json.obj []).EveryKey (isPlain ·) ∧
      validator.check [] (.obj []) = .error [violation] ∧ violation.problem = .wrongKey ∧
      ∀ location : Location, location.Plain → location.render = violation.path →
        ∀ inner object key, validator.DescendsToKey (.obj []) location inner object key →
          ¬ (key ∈ Json.Members.keys object ∧ key ∉ inner.fieldNames) := by
  have ran : (notedPages.compile 0 "Page").result.toOption.any fun compiled =>
      compiled.validator.everyRule isNoteOrPlain &&
      (errorOf? (compiled.validator.check [] (.obj []))).map (·.map fun violation =>
        (violation.path, violation.problem)) == some [("note.a.b", .wrongKey)] := by
    decide +kernel
  obtain ⟨compiled, given, tested⟩ := Compiler.exists_gives_of_any ran
  obtain ⟨noted, shown⟩ := Bool.and_eq_true_iff.1 tested
  obtain ⟨violations, failed, shown⟩ := Option.map_eq_some_iff.1 (beq_iff_eq.1 shown)
  obtain ⟨violation, others, rfl, told, shown⟩ := List.map_eq_cons_iff.1 shown
  obtain rfl := List.map_eq_nil_iff.1 shown
  obtain ⟨path, wrong⟩ := Prod.mk.inj told
  refine ⟨_, violation, given, ?_, .obj (by simp [Json.Members.keys]) (by simp),
    errorOf?_eq_some.1 failed, wrong, ?_⟩
  · intro inner occurs name mem
    obtain ⟨rule, declared, rfl⟩ := List.mem_map.1 mem
    exact (Bool.and_eq_true_iff.1 (Validator.test_of_everyRule noted occurs declared)).1
  · intro location plain read inner object key toKey _
    have spelt : Location.Plain [.key "note", .key "a", .key "b"] := by
      simp [Location.Plain, Step.Plain]
      decide
    have written : Location.render [.key "note", .key "a", .key "b"] = "note.a.b" := by
      decide +kernel
    obtain rfl : location = [.key "note", .key "a", .key "b"] :=
      Location.render_inj plain spelt (read.trans (path.trans written.symm))
    obtain ⟨steps, keys, descends, same⟩ := toKey
    obtain rfl : steps = [.key "note", .key "a"] := by
      simpa using (congrArg List.dropLast same).symm
    -- The default has no document under its key up to the point.
    exact absurd descends (Validator.Descends.false_of_noted noted)

end DocModel
