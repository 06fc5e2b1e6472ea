import DocModel.Proofs.Compile.Resolved
import DocModel.Proofs.Validator.Again

namespace DocModel

theorem Check.idempotent_of_kept {checks : List Check}
    (keep : ∀ value, ∀ check ∈ checks, check.kept value = value) : Idempotent checks := by
  intro value out passed
  obtain ⟨-, rfl⟩ := (applyAll_eq_ok (keep value)).1 passed
  exact passed

theorem Property.idempotent_checks (property : Property) : Check.Idempotent property.checks := by
  by_cases primitive : ∃ type, property.type = .primitive type
  · obtain ⟨type, h⟩ := primitive
    have keep : ∀ value, ∀ check ∈ property.limitChecks type ++ property.choiceChecks,
        check.kept value = value :=
      fun _ => List.forall_mem_append.2 ⟨kept_limitChecks, kept_choiceChecks⟩
    intro value out passed
    simp only [checks_of_primitive h, Check.applyAll_cons, bind_eq_ok, Check.apply_type,
      Check.applyAll_eq_ok (keep _)] at passed ⊢
    obtain ⟨_, ⟨typed, rfl⟩, asked, rfl⟩ := passed
    exact ⟨_, ⟨typed.trim, rfl⟩, (type.trim_trim value).symm ▸ asked, (type.trim_trim value).symm⟩
  · rw [checks_of_untyped fun type h => primitive ⟨type, h⟩]
    exact Check.idempotent_of_kept fun _ => kept_choiceChecks

theorem Field.idempotent_checks (field : Field) : Check.Idempotent field.checks := by
  cases field with
  | property p => exact p.idempotent_checks
  | relation r => exact Check.idempotent_of_kept (by simp [checks])

namespace Schema

variable {schema : Schema} {strict : Bool} {inner : Validator}

theorem exists_of_mem_rules {rule : FieldRule} (h : rule ∈ (schema.validator strict).rules) :
    ∃ field : SchemaField, rule = field.rule strict := by
  cases schema with
  | mk definition fields =>
    rw [validator, Validator.rules, List.mem_map] at h
    obtain ⟨field, -, rfl⟩ := h
    exact ⟨field, rfl⟩

theorem exists_of_occurs (h : inner.Occurs (schema.validator strict)) :
    ∃ other : Schema, inner = other.validator strict := by
  generalize same : schema.validator strict = outer at h
  induction h generalizing schema with
  | refl => exact ⟨schema, same.symm⟩
  | embedded rule occurs ih =>
    subst same
    obtain ⟨field, compiled⟩ := exists_of_mem_rules rule
    cases field with
    | plain name field =>
      rw [SchemaField.rule] at compiled
      cases compiled
    | embedded name field embedding target =>
      rw [SchemaField.rule] at compiled
      cases compiled
      exact ih rfl

theorem idempotent_validator (schema : Schema) (strict : Bool) :
    (schema.validator strict).Idempotent := by
  intro inner head checks occurs rule
  obtain ⟨other, rfl⟩ := exists_of_occurs occurs
  obtain ⟨field, compiled⟩ := exists_of_mem_rules rule
  cases field with
  | plain name field =>
    rw [SchemaField.rule] at compiled
    cases compiled
    exact field.idempotent_checks
  | embedded name field embedding target =>
    rw [SchemaField.rule] at compiled
    cases compiled

end Schema

namespace Compiler

variable {compiler : Compiler} {validator : Validator}

theorem Gives.idempotent (h : compiler.Gives validator) : validator.Idempotent := by
  obtain ⟨schema, compiles⟩ := h.exists_schema
  rw [compiles.validator_eq]
  exact schema.idempotent_validator _

end Compiler

theorem FieldRule.Outcome.staysAbsent {oracle : Option Oracle} {rule : FieldRule}
    {members after : Json.Members} (h : rule.Outcome oracle members after)
    (absent : after.get? rule.name = none) (keeps : rule.head.removeIf = []) :
    rule.StaysAbsent oracle := by
  cases h with
  | skipped missing optional gone =>
    exact .inl ⟨(FieldHead.given?_eq_none_iff.1 missing).2, optional⟩
  | kept given returns wanted stored =>
    rw [get?_of_stored stored] at absent
    cases absent
  | removed given returns unwanted gone =>
    rw [keeps] at unwanted
    cases unwanted

section

variable {compiler : Compiler} {validator : Validator} {oracle : Option Oracle} {out : Json}

/-- Where no field has values to be removed, what a compiled validator returns it returns again. -/
theorem validate_again {document : Json} (given : compiler.Gives validator)
    (keeps : ∀ inner rule, Validator.Occurs inner validator → rule ∈ inner.rules →
      rule.head.removeIf = [])
    (fixed : ∀ ask ∈ oracle, ask.Fixed)
    (h : (validator.validate oracle document).result = .ok out) :
    (validator.validate oracle out).result = .ok out := by
  apply (given.orderly.returns_again_iff given.idempotent fixed h).2
  intro inner members rule reaches mem absent
  obtain ⟨old, returned, orderly, occurs⟩ :=
    Validator.Returns.of_reaches given.orderly h reaches
  obtain ⟨before, -, outcome⟩ := orderly.outcome returned mem
  exact outcome.staysAbsent absent (keeps inner rule occurs mem)

/-- Trips with a start and with stops by the ids of places. -/
def trips : Compiler where
  source := Registry.source ⟨[
    ("Trip", .obj [
      ("properties", .obj [("start", .obj [("type", .str "GeoPoint")])]),
      ("relations", .obj [
        ("stops", .obj [("type", .str "embedsManyAsObject"), ("model", .str "Stop"),
          ("key", .obj [("autoclean", .bool true), ("type", .str "model"),
            ("model", .str "place")])])])]),
    ("Stop", .obj [("properties", .obj [
      ("nights", .obj [("type", .str "int"), ("default", .num (.int 1))])])])]⟩

def places : EntityStore := ⟨[("place", [4, 5])]⟩

theorem places_fixed : ∀ ask ∈ some places.oracle, ask.Fixed := by
  intro ask mem
  cases mem
  exact places.oracle_fixed

def trip : Json :=
  .obj [("stops", .obj [("4", .obj []), ("6", .obj []), (" 5", .obj [("nights", .num (.int 2))])]),
    ("start", .obj [("lat", .num (.int 1)), ("alt", .num (.int 9)), ("lng", .num (.int 2))])]

/-- The trip without the stop that is of no place, and with all nights told. -/
def settledTrip : Json :=
  .obj [("stops", .obj [("4", .obj [("nights", .num (.int 1))]),
      (" 5", .obj [("nights", .num (.int 2))])]),
    ("start", .obj [("lat", .num (.int 1)), ("lng", .num (.int 2))])]

theorem validate_again_trip :
    ∃ validator, trips.Gives validator ∧
      (validator.validate (some places.oracle) trip).result = .ok settledTrip ∧
      (validator.validate (some places.oracle) settledTrip).result = .ok settledTrip := by
  have ran : (trips.compile 0 "Trip").result.toOption.any fun compiled =>
      compiled.validator.everyRule (·.head.removeIf.isEmpty) ∧
        (compiled.validator.validate (some places.oracle) trip).result = .ok settledTrip := by
    decide +kernel
  obtain ⟨compiled, given, tested⟩ := Compiler.exists_gives_of_any ran
  obtain ⟨keeps, returned⟩ := of_decide_eq_true tested
  refine ⟨_, given, returned, validate_again given ?_ places_fixed returned⟩
  intro inner rule occurs mem
  exact List.isEmpty_iff.1 (Validator.test_of_everyRule keeps occurs mem)

/-- Where every field has a default, what comes of the empty document comes of itself again if and
only if the default of each field that was removed from it, at any depth, comes to a value with
which it is removed again. -/
theorem filled_again_iff (given : compiler.Gives validator)
    (filled : ∀ inner rule, Validator.Occurs inner validator → rule ∈ inner.rules →
      rule.head.default ≠ none)
    (fixed : ∀ ask ∈ oracle, ask.Fixed)
    (h : (validator.validate oracle (.obj [])).result = .ok out) :
    (validator.validate oracle out).result = .ok out ↔
      ∀ inner members rule, validator.Reaches out inner (.obj members) → rule ∈ inner.rules →
        Json.Members.get? members rule.name = none →
          ∃ value final, rule.head.default = some value ∧ rule.Returns oracle value final ∧
            final.isAmong rule.head.removeIf := by
  have again := given.orderly.returns_again_iff given.idempotent fixed h
  rw [← Validator.Returns, again, Validator.Lasting]
  refine forall₃_congr fun inner members rule => forall₃_congr fun reaches mem absent => ?_
  obtain ⟨-, -, -, occurs⟩ := Validator.Returns.of_reaches given.orderly h reaches
  exact or_iff_right fun missing => filled inner rule occurs mem missing.1

/-- Pages with a note, which is a draft unless it says otherwise and loses its state if it is one.
The default state of other notes is the given one. -/
def pages (state : String) : Compiler where
  source := Registry.source ⟨[
    ("Page", .obj [("relations", .obj [
      ("note", .obj [("type", .str "embedsOne"), ("model", .str "Note"),
        ("default", .obj [("state", .str "draft")])])])]),
    ("Note", .obj [("properties", .obj [
      ("state", .obj [("type", .str "string"), ("default", .str state),
        ("deleteKeyIfValueIn", .arr [.str "draft"])])])])]⟩

/-- The page of the empty document, whose note has lost its state. -/
def page : Json := .obj [("note", .obj [])]

theorem filled_again_iff_page :
    ∃ validator, (pages "draft").Gives validator ∧
      (validator.validate (some places.oracle) (.obj [])).result = .ok page ∧
      ∀ inner members rule, validator.Reaches page inner (.obj members) → rule ∈ inner.rules →
        Json.Members.get? members rule.name = none →
          ∃ value final, rule.head.default = some value ∧
            rule.Returns (some places.oracle) value final ∧
            final.isAmong rule.head.removeIf := by
  have ran : ((pages "draft").compile 0 "Page").result.toOption.any fun compiled =>
      compiled.validator.everyRule (·.head.default.isSome) ∧
        (compiled.validator.validate (some places.oracle) (.obj [])).result = .ok page ∧
        (compiled.validator.validate (some places.oracle) page).result = .ok page := by
    decide +kernel
  obtain ⟨compiled, given, tested⟩ := Compiler.exists_gives_of_any ran
  obtain ⟨filled, returned, again⟩ := of_decide_eq_true tested
  refine ⟨_, given, returned, (filled_again_iff given ?_ places_fixed returned).1 again⟩
  intro inner rule occurs mem
  exact Option.isSome_iff_ne_none.1 (Validator.test_of_everyRule filled occurs mem)

/-- A new note in the place of the draft that is gone makes the page another. -/
theorem page_not_again :
    ∃ validator, (pages "new").Gives validator ∧
      (∀ inner rule, Validator.Occurs inner validator → rule ∈ inner.rules →
        rule.head.default ≠ none) ∧
      (validator.validate (some places.oracle) (.obj [])).result = .ok page ∧
      (validator.validate (some places.oracle) page).result =
        .ok (.obj [("note", .obj [("state", .str "new")])]) ∧
      ¬ (validator.validate (some places.oracle) page).result = .ok page := by
  have ran : ((pages "new").compile 0 "Page").result.toOption.any fun compiled =>
      compiled.validator.everyRule (·.head.default.isSome) ∧
        (compiled.validator.validate (some places.oracle) (.obj [])).result = .ok page ∧
        (compiled.validator.validate (some places.oracle) page).result =
          .ok (.obj [("note", .obj [("state", .str "new")])]) := by
    decide +kernel
  obtain ⟨compiled, given, tested⟩ := Compiler.exists_gives_of_any ran
  obtain ⟨filled, returned, again⟩ := of_decide_eq_true tested
  refine ⟨_, given, ?_, returned, again, ?_⟩
  · intro inner rule occurs mem
    exact Option.isSome_iff_ne_none.1 (Validator.test_of_everyRule filled occurs mem)
  · rw [again]
    decide

end

end DocModel
