import Mathlib.Data.List.Forall2
import DocModel.Proofs.Compile.Resolved
import DocModel.Proofs.Validator.Inversion

namespace DocModel

mutual

/-- What a check may make of a document: its members stay in their order and the absent fields that
have a default follow, in declared order. Other members are untouched. -/
inductive Validator.Completes : Validator → Json → Json → Prop
  | intro {typeName : String} {rejectsUnknown : Bool} {rules : List FieldRule}
    {members after : Json.Members}
    (keys : after.keys =
      members.keys ++ (rules.filter (·.head.isFilled members)).map FieldRule.name)
    (nodup : members.keys.Nodup → after.keys.Nodup)
    (undeclared : ∀ key ∉ rules.map FieldRule.name, after.get? key = members.get? key)
    (declared : ∀ rule ∈ rules, ∀ value out, rule.head.given? members = some value →
      after.get? rule.name = some out → FieldRule.Completes rule value out) :
    Validator.Completes (.mk typeName rejectsUnknown rules) (.obj members) (.obj after)

/-- What a check may make of the value or the default of a field: a point loses other members, and
the documents that the field holds are completed one by one. -/
inductive FieldRule.Completes : FieldRule → Json → Json → Prop
  | kept {head : FieldHead} {checks : List Check} {value : Json}
    (plain : .type .geoPoint ∉ checks) : FieldRule.Completes (.value head checks) value value
  | point {head : FieldHead} {checks : List Check} {members : Json.Members}
    (point : .type .geoPoint ∈ checks) :
    FieldRule.Completes (.value head checks) (.obj members)
      (.obj (members.filter fun member => pointKeys.contains member.1))
  | null {rule : FieldRule} (optional : rule.head.required = false) :
    FieldRule.Completes rule .null .null
  | one {head : FieldHead} {nested : Validator} {members : Json.Members} {out : Json}
    (completes : Validator.Completes nested (.obj members) out) :
    FieldRule.Completes (.embedded head .one nested) (.obj members) out
  | single {head : FieldHead} {nested : Validator} {members : Json.Members} {out : Json}
    (completes : Validator.Completes nested (.obj members) out) :
    FieldRule.Completes (.embedded head .many nested) (.obj members) out
  | list {head : FieldHead} {nested : Validator} {items outs : List Json}
    (length : items.length = outs.length)
    (each : ∀ item out, (item, out) ∈ items.zip outs → Validator.Completes nested item out) :
    FieldRule.Completes (.embedded head .many nested) (.arr items) (.arr outs)
  | map {head : FieldHead} {model : Option String} {nested : Validator}
    {entries after : Json.Members} (keys : entries.keys = after.keys)
    (each : ∀ entry out, (entry, out) ∈ entries.zip after →
      Validator.Completes nested entry.2 out.2) :
    FieldRule.Completes (.embedded head (.keyed model) nested) (.obj entries) (.obj after)

end

namespace Check

variable {check : Check} {checks : List Check} {value out : Json}

theorem kept_of_ne_point (plain : check ≠ .type .geoPoint) : check.kept value = value := by
  cases check with
  | type expected => exact Primitive.trim_of_ne_point fun same => plain (same ▸ rfl)
  | _ => rfl

theorem eq_of_applyAll (plain : .type .geoPoint ∉ checks) (h : applyAll checks value = .ok out) :
    out = value := by
  refine ((applyAll_eq_ok ?_).1 h).2
  intro check mem
  apply kept_of_ne_point
  intro same
  exact plain (same ▸ mem)

theorem trimmed_of_applyAll (point : .type .geoPoint ∈ checks)
    (h : applyAll checks value = .ok out) :
    ∃ members : Json.Members, value = .obj members ∧
      out = .obj (members.filter fun member => pointKeys.contains member.1) := by
  induction checks generalizing value with
  | nil => cases point
  | cons check checks ih =>
    rw [applyAll_cons, bind_eq_ok] at h
    obtain ⟨middle, first, rest⟩ := h
    obtain ⟨asked, rfl⟩ := apply_eq_ok.1 first
    by_cases now : check = .type .geoPoint
    · subst now
      cases asked with
      | @geoPoint members =>
        refine ⟨members, rfl, ?_⟩
        by_cases again : .type .geoPoint ∈ checks
        · obtain ⟨trimmed, same, rfl⟩ := ih again rest
          cases same
          exact Primitive.trim_trim .geoPoint (.obj members)
        · exact eq_of_applyAll again rest
    · rw [kept_of_ne_point now] at rest
      cases point with
      | head => exact absurd rfl now
      | tail _ later => exact ih later rest

end Check

namespace Embedding

variable {document : Location → Json → Checked Json} {R : Json → Json → Prop}
  (sound : ∀ location value out, document location value = .ok out → R value out)

include sound

theorem forall₂_of_checkItems {location : Location} {index : Nat} {items outs : List Json}
    (h : checkItems document location index items = .ok outs) : List.Forall₂ R items outs := by
  induction items generalizing index outs with
  | nil =>
    cases h
    exact .nil
  | cons item items ih =>
    obtain ⟨out, rest, first, others, rfl⟩ := checkItems_cons_eq_ok.1 h
    exact .cons (sound _ _ _ first) (ih others)

theorem forall₂_of_checkEntries {location : Location} {entries after : Json.Members}
    (h : checkEntries document location entries = .ok after) :
    entries.keys = after.keys ∧
      List.Forall₂ (fun entry out => R entry.2 out.2) entries after := by
  induction entries generalizing after with
  | nil =>
    cases h
    exact ⟨rfl, .nil⟩
  | cons entry entries ih =>
    obtain ⟨out, rest, first, others, rfl⟩ := checkEntries_cons_eq_ok.1 h
    obtain ⟨keys, each⟩ := ih others
    exact ⟨congrArg (entry.1 :: ·) keys, .cons (sound _ _ _ first) each⟩

end Embedding

variable {validator : Validator} {rule : FieldRule} {location : Location} {value out : Json}

theorem Embedding.completes {head : FieldHead} {embedding : Embedding} {nested : Validator}
    (sound : ∀ location document out, nested.check location document = .ok out →
      nested.Completes document out)
    (h : embedding.check (fun location document => nested.check location document) location value =
      .ok out) : (FieldRule.embedded head embedding nested).Completes value out := by
  cases embedding with
  | one =>
    cases value with
    | obj members => exact .one (sound _ _ _ h)
    | _ => cases h
  | many =>
    cases value with
    | obj members => exact .single (sound _ _ _ h)
    | arr items =>
      obtain ⟨outs, checked, rfl⟩ := map_eq_ok.1 h
      obtain ⟨length, each⟩ := List.forall₂_iff_zip.1 (forall₂_of_checkItems sound checked)
      exact .list length fun _ _ mem => each mem
    | _ => cases h
  | keyed model =>
    cases value with
    | obj entries =>
      obtain ⟨after, checked, rfl⟩ := map_eq_ok.1 h
      obtain ⟨keys, related⟩ := forall₂_of_checkEntries sound checked
      exact .map keys fun _ _ mem => (List.forall₂_iff_zip.1 related).2 mem
    | _ => cases h

theorem FieldRule.completes
    (sound : ∀ head embedding nested, rule = .embedded head embedding nested →
      ∀ location document out, nested.check location document = .ok out →
        nested.Completes document out)
    (h : rule.check location value = .ok out) : rule.Completes value out := by
  cases rule with
  | value head checks =>
    rw [FieldRule.check] at h
    split at h
    · rename_i optional
      cases h
      cases value <;> simp [Json.isNull] at optional
      exact .null optional
    · rw [mapError_eq_ok] at h
      by_cases point : .type .geoPoint ∈ checks
      · obtain ⟨members, rfl, rfl⟩ := Check.trimmed_of_applyAll point h
        exact .point point
      · obtain rfl := Check.eq_of_applyAll point h
        exact .kept point
  | embedded head embedding nested =>
    rw [FieldRule.check] at h
    split at h
    · rename_i optional
      cases h
      cases value <;> simp [Json.isNull] at optional
      exact .null optional
    · exact Embedding.completes (sound _ _ _ rfl) h

theorem Validator.Orderly.completes (orderly : validator.Orderly)
    (h : validator.check location value = .ok out) : validator.Completes value out := by
  induction orderly generalizing location value out with
  | @intro typeName rejectsUnknown rules nodup nested ih =>
    cases value with
    | obj members =>
      obtain ⟨after, checked, -, rfl⟩ := Validator.check_obj_eq_ok.1 h
      constructor
      · exact keys_of_checkRules_eq nodup checked
      · exact nodup_keys_of_checkRules checked
      · intro key undeclared
        exact get?_of_checkRules checked undeclared
      · intro rule mem value out given found
        obtain ⟨out', passed, found'⟩ := check_of_checkRules nodup checked mem given
        rw [found] at found'
        cases found'
        apply FieldRule.completes _ passed
        intro head embedding inner same location document out
        exact ih head embedding inner (same ▸ mem)
    | _ => cases h

theorem Validator.Orderly.completes_obj {members : Json.Members} (orderly : validator.Orderly)
    (h : validator.check location (.obj members) = .ok out) :
    ∃ after : Json.Members, out = .obj after ∧
      after.keys =
        members.keys ++ (validator.rules.filter (·.head.isFilled members)).map FieldRule.name ∧
      (members.keys.Nodup → after.keys.Nodup) ∧
      (∀ key ∉ validator.fieldNames, after.get? key = members.get? key) ∧
      ∀ rule ∈ validator.rules, ∀ value, rule.head.given? members = some value →
        ∃ out, after.get? rule.name = some out ∧ rule.Completes value out := by
  have completes := orderly.completes h
  have nodup := orderly.nodup_names
  cases validator with
  | mk typeName rejectsUnknown rules =>
    obtain ⟨after, checked, -, rfl⟩ := Validator.check_obj_eq_ok.1 h
    cases completes with
    | intro keys distinct undeclared declared =>
      refine ⟨after, rfl, keys, distinct, undeclared, ?_⟩
      intro rule mem value given
      obtain ⟨out, -, found⟩ := check_of_checkRules nodup checked mem given
      exact ⟨out, found, declared rule mem value out given found⟩

section

variable {schema : Schema} {source : Source}

theorem Schema.Resolves.fieldNames_eq (h : schema.Resolves source) (strict : Bool) :
    (schema.validator strict).fieldNames = schema.definition.fields.map (·.1) := by
  cases h with
  | @intro definition fields declared plain embedded nested =>
    rw [Schema.validator, Validator.fieldNames, Validator.rules, SchemaField.rule_name, declared]
    rfl

/-- The fields that a check adds are the absent ones that are declared with a default. -/
theorem Schema.Resolves.filter_isFilled (h : schema.Resolves source) (strict : Bool)
    (members : Json.Members) :
    ((schema.validator strict).rules.filter (·.head.isFilled members)).map FieldRule.name =
      (schema.definition.fields.filter fun field =>
        (members.get? field.1).isNone && field.2.default.isSome).map (·.1) := by
  cases h with
  | @intro definition fields declared plain embedded nested =>
    rw [Schema.validator, Validator.rules, Schema.definition, ← declared]
    simp [List.filter_map, FieldRule.name, SchemaField.rule_head, FieldHead.isFilled,
      SchemaField.declared, Function.comp_def]

end

/-- A check by a compiled validator keeps the members of an object in their order and adds the absent
fields that have a default, properties before relations. It does not touch other members, and in
those of fields it only trims points and completes the embedded documents in the same way. -/
theorem check_completes {compiler : Compiler} (given : compiler.Gives validator) :
    ∃ schema, compiler.Compiles schema validator ∧
      ∀ (location : Location) (members : Json.Members) (out : Json),
        validator.check location (.obj members) = .ok out →
          ∃ after : Json.Members, out = .obj after ∧
            after.keys = members.keys ++ (schema.definition.fields.filter fun field =>
              (members.get? field.1).isNone && field.2.default.isSome).map (·.1) ∧
            (members.keys.Nodup → after.keys.Nodup) ∧
            (∀ key ∉ schema.definition.fields.map (·.1), after.get? key = members.get? key) ∧
            ∀ rule ∈ validator.rules, ∀ value, rule.head.given? members = some value →
              ∃ out, after.get? rule.name = some out ∧ rule.Completes value out := by
  obtain ⟨schema, compiles⟩ := given.exists_schema
  refine ⟨schema, compiles, ?_⟩
  intro location members out passed
  obtain ⟨after, same, keys, distinct, undeclared, declared⟩ :=
    given.orderly.completes_obj passed
  rw [compiles.validator_eq, compiles.resolves.filter_isFilled] at keys
  rw [compiles.validator_eq, compiles.resolves.fieldNames_eq] at undeclared
  exact ⟨after, same, keys, distinct, undeclared, declared⟩

/-- Parcels, of which other things may be said, with their contents. -/
def parcels : Compiler where
  rejectsUnknown := false
  source := Registry.source ⟨[
    ("Parcel", .obj [
      ("relations", .obj [
        ("contents", .obj [("type", .str "embedsMany"), ("model", .str "Content")]),
        ("extras", .obj [("type", .str "embedsMany"), ("model", .str "Content"),
          ("default", .arr [.obj []])])]),
      ("properties", .obj [
        ("weight", .obj [("type", .str "int"), ("default", .num (.int 1))]),
        ("at", .obj [("type", .str "GeoPoint")])])]),
    ("Content", .obj [("properties", .obj [
      ("count", .obj [("type", .str "int"), ("default", .num (.int 1))])])])]⟩

def parcel : Json.Members :=
  [("contents", .arr [.obj [], .obj [("count", .num (.int 2)), ("kind", .str "book")]]),
    ("from", .obj [("lat", .null)]),
    ("at", .obj [("lng", .num (.int 2)), ("alt", .num (.int 9)), ("lat", .num (.int 1))])]

def checkedParcel : Json.Members :=
  [("contents", .arr [.obj [("count", .num (.int 1))],
      .obj [("count", .num (.int 2)), ("kind", .str "book")]]),
    ("from", .obj [("lat", .null)]),
    ("at", .obj [("lng", .num (.int 2)), ("lat", .num (.int 1))]), ("weight", .num (.int 1)),
    ("extras", .arr [.obj [("count", .num (.int 1))]])]

theorem check_completes_parcel :
    ∃ validator schema, parcels.Gives validator ∧ parcels.Compiles schema validator ∧
      validator.check [] (.obj parcel) = .ok (.obj checkedParcel) ∧
      checkedParcel.keys = ["contents", "from", "at"] ++ (schema.definition.fields.filter
        fun field => (parcel.get? field.1).isNone && field.2.default.isSome).map (·.1) := by
  have ran : (parcels.compile 0 "Parcel").result.toOption.any fun compiled =>
      compiled.validator.check [] (.obj parcel) = .ok (.obj checkedParcel) := by
    decide +kernel
  obtain ⟨compiled, given, tested⟩ := Compiler.exists_gives_of_any ran
  have passed := of_decide_eq_true tested
  obtain ⟨schema, compiles, completes⟩ := check_completes given
  obtain ⟨after, same, keys, -⟩ := completes [] parcel _ passed
  cases same
  exact ⟨_, schema, given, compiles, passed, keys⟩

end DocModel
