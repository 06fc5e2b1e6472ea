import DocModel.Validator.Validate

namespace DocModel

/-- A question to an oracle: a model, and ids that may be ids of it. -/
abbrev Question := String × List Int

/-- An oracle whose answers may change: how it answers depends on what it was asked before. -/
abbrev Service := List Question → Oracle

/-- The questions among some activities. -/
def questions (activities : List Activity) : List Question := activities.filterMap Activity.query?

theorem questions_append (activities others : List Activity) :
    questions (activities ++ others) = questions activities ++ questions others :=
  List.filterMap_append

/-- How a map whose keys should be ids of a model loses entries. -/
abbrev Dropping := Location → String → Json.Members → Cleaning Json.Members

/-- Drops the entries of ids that the service does not know when it is asked. -/
def Service.drop (service : Option Service) : Dropping := fun location model entries => do
  let sweep ← get
  dropDangling (service.map fun serve => serve (questions sweep.activities)) location model entries

/-- Cleans the documents that a field holds and, if it is one of ids, the map that holds them. -/
def Embedding.cleanBy (drop : Dropping) (document : Location → Json → Cleaning Json)
    (embedding : Embedding) (location : Location) (value : Json) : Cleaning Json :=
  match embedding, value with
  | many, .arr items => do return .arr (← cleanItems document location 0 items)
  | one, .obj _ | many, .obj _ => document location value
  | keyed model, .obj entries => do
    let entries ← cleanEntries document location entries
    match model with
    | some model => return .obj (← drop location model entries)
    | none => return .obj entries
  | _, value => pure value

mutual

/-- Cleans a document, given how maps of ids lose entries. -/
def Validator.cleanBy (drop : Dropping) (validator : Validator) (location : Location)
    (document : Json) : Cleaning Json :=
  match validator with
  | .mk _ _ rules =>
    match document with
    | .obj members => do return .obj (← cleanRulesBy drop rules location members)
    | value => pure value
termination_by structural validator

def FieldRule.cleanBy (drop : Dropping) (rule : FieldRule) (location : Location) (value : Json) :
    Cleaning Json :=
  match rule with
  | .value _ _ => pure value
  | .embedded _ embedding nested =>
    embedding.cleanBy drop (fun location document => nested.cleanBy drop location document)
      location value
termination_by structural rule

def cleanRulesBy (drop : Dropping) (rules : List FieldRule) (location : Location)
    (members : Json.Members) : Cleaning Json.Members :=
  match rules with
  | [] => pure members
  | rule :: rules => do
    let place := location ++ [.key rule.name]
    let members ← rule.head.refine (fun value => rule.cleanBy drop place value) members
    let members ← rule.head.prune members
    cleanRulesBy drop rules location members
termination_by structural rules

end

/-- Checks a document and, once all of it has passed, cleans it as given. -/
def Validator.judge (validator : Validator) (clean : Json → Cleaning Json) (document : Json) :
    Verdict :=
  match validator.check [] document with
  | .error violations => validator.reject violations []
  | .ok checked =>
    match (clean checked).run {} with
    | .error violation sweep => validator.reject [violation] sweep.activities
    | .ok cleaned sweep =>
      ⟨.ok cleaned, sweep.activities ++
        [.cleaned validator.typeName sweep.stats, .validated validator.typeName]⟩

namespace Validator

variable {validator : Validator} {clean : Json → Cleaning Json} {document checked cleaned : Json}
  {sweep : Sweep}

theorem judge_of_failed {violations : List Violation}
    (failed : validator.check [] document = .error violations) :
    validator.judge clean document = validator.reject violations [] := by
  rw [judge, failed]

theorem judge_of_error {violation : Violation} (passed : validator.check [] document = .ok checked)
    (run : (clean checked).run {} = .error violation sweep) :
    validator.judge clean document = validator.reject [violation] sweep.activities := by
  simp only [judge, passed, run]

theorem judge_of_ok (passed : validator.check [] document = .ok checked)
    (run : (clean checked).run {} = .ok cleaned sweep) :
    validator.judge clean document = ⟨.ok cleaned, sweep.activities ++
      [.cleaned validator.typeName sweep.stats, .validated validator.typeName]⟩ := by
  simp only [judge, passed, run]

end Validator

/-- Validates a document with a service in the place of an oracle. -/
def Validator.validateBy (validator : Validator) (service : Option Service) (document : Json) :
    Verdict :=
  validator.judge (validator.cleanBy (Service.drop service) []) document

/-- The service that answers always as the oracle does. -/
def Oracle.always (oracle : Oracle) : Service := fun _ => oracle

variable {oracle : Option Oracle}

theorem Embedding.cleanBy_dropDangling {clean clean' : Location → Json → Cleaning Json}
    (same : ∀ location document, clean' location document = clean location document)
    (embedding : Embedding) (location : Location) (value : Json) :
    embedding.cleanBy (dropDangling oracle) clean' location value =
      embedding.clean oracle clean location value := by
  obtain rfl : clean' = clean := funext fun location => funext (same location)
  cases embedding <;> cases value <;> rfl

mutual

theorem Validator.cleanBy_dropDangling (validator : Validator) (location : Location)
    (document : Json) :
    validator.cleanBy (dropDangling oracle) location document =
      validator.clean oracle location document := by
  match validator with
  | .mk typeName rejectsUnknown rules =>
    cases document with
    | obj members => rw [Validator.cleanBy, Validator.clean, cleanRulesBy_dropDangling]
    | _ => rfl

theorem FieldRule.cleanBy_dropDangling (rule : FieldRule) (location : Location) (value : Json) :
    rule.cleanBy (dropDangling oracle) location value = rule.clean oracle location value := by
  match rule with
  | .value head checks => rfl
  | .embedded head embedding nested =>
    rw [FieldRule.cleanBy, FieldRule.clean]
    apply Embedding.cleanBy_dropDangling
    intro location document
    exact Validator.cleanBy_dropDangling nested location document

theorem cleanRulesBy_dropDangling (rules : List FieldRule) (location : Location)
    (members : Json.Members) :
    cleanRulesBy (dropDangling oracle) rules location members =
      cleanRules oracle rules location members := by
  match rules with
  | [] => rfl
  | rule :: rules =>
    have value : ∀ value, rule.cleanBy (dropDangling oracle) (location ++ [.key rule.name]) value =
        rule.clean oracle (location ++ [.key rule.name]) value :=
      fun value => FieldRule.cleanBy_dropDangling rule _ value
    have rest : ∀ members, cleanRulesBy (dropDangling oracle) rules location members =
        cleanRules oracle rules location members :=
      fun members => cleanRulesBy_dropDangling rules location members
    simp only [cleanRulesBy, cleanRules, value, rest]

end

theorem Service.drop_always (oracle : Option Oracle) :
    Service.drop (oracle.map Oracle.always) = dropDangling oracle := by
  funext location model entries sweep
  cases oracle <;> rfl

/-- An oracle is as good as the service that always answers as it does. -/
theorem Validator.validate_eq_validateBy (validator : Validator) (oracle : Option Oracle)
    (document : Json) :
    validator.validate oracle document =
      validator.validateBy (oracle.map Oracle.always) document := by
  have clean : validator.cleanBy (Service.drop (oracle.map Oracle.always)) [] =
      validator.clean oracle [] := by
    rw [Service.drop_always]
    exact funext (validator.cleanBy_dropDangling [])
  rw [Validator.validateBy, clean]
  rfl

end DocModel
