import DocModel.Proofs.Validator.Failure

namespace DocModel

/-- The documents that a value holds, each with the steps to it and, in a map, its key. -/
inductive Embedding.Locates : Embedding → Json → Location → List String → Json → Prop
  | one {members : Json.Members} : Locates .one (.obj members) [] [] (.obj members)
  | single {members : Json.Members} : Locates .many (.obj members) [] [] (.obj members)
  | item {items : List Json} {index : Nat} {item : Json} (found : items[index]? = some item) :
    Locates .many (.arr items) [.index index] [] item
  | entry {model : Option String} {entries : Json.Members} {key : String} {entry : Json}
    (mem : (key, entry) ∈ entries) : Locates (.keyed model) (.obj entries) [.key key] [key] entry

/-- What is wrong with a value in whose form no field holds documents. -/
def Embedding.misfit? : Embedding → Json → Option Problem
  | one, .obj _ | many, .obj _ | many, .arr _ | keyed _, .obj _ => none
  | many, value => some (.mismatch "array" value.typeName)
  | one, value | keyed _, value => some (.mismatch "object" value.typeName)

/-- Where the steps lead from a document that a validator is for, when a field that is absent is
read as its default: to a document in it, with its validator and the keys of the maps passed. -/
inductive Validator.Descends : Validator → Json → Location → List String → Validator → Json → Prop
  | here {validator : Validator} {document : Json} :
    Descends validator document [] [] validator document
  | inside {validator nested inner : Validator} {head : FieldHead} {embedding : Embedding}
    {members : Json.Members} {value document reached : Json} {steps rest : Location}
    {keys others : List String} (rule : .embedded head embedding nested ∈ validator.rules)
    (given : head.given? members = some value)
    (locates : embedding.Locates value steps keys document)
    (descends : Descends nested document rest others inner reached) :
    Descends validator (.obj members) (.key head.name :: steps ++ rest) (keys ++ others) inner
      reached

/-- Where a document is that is not an object; without a path it is the root. -/
def Location.ofDocument (location : Location) : Location :=
  if location.render.isEmpty then root else location

/-- What a validator says against a document at a location, leaving aside the documents that it
embeds. -/
inductive Validator.Refuses (validator : Validator) (location : Location) :
    Json → Violation → Prop
  | notObject {document : Json} (form : ∀ members, document ≠ .obj members) :
    Refuses validator location document
      ⟨location.ofDocument, .mismatch "object" document.typeName⟩
  | missing {rule : FieldRule} {members : Json.Members} (mem : rule ∈ validator.rules)
    (absent : members.get? rule.name = none) (undefaulted : rule.head.default = none)
    (required : rule.head.required = true) :
    Refuses validator location (.obj members) ⟨location ++ [.key rule.name], .missingKey⟩
  | unknown {members : Json.Members} {key : String} (strict : validator.rejectsUnknown = true)
    (mem : key ∈ members.keys) (undeclared : key ∉ validator.fieldNames) :
    Refuses validator location (.obj members) ⟨location ++ [.key key], .wrongKey⟩
  | value {head : FieldHead} {checks : List Check} {members : Json.Members} {value : Json}
    {problem : Problem} (mem : .value head checks ∈ validator.rules)
    (given : head.given? members = some value)
    (tested : (value.isNull && !head.required) = false)
    (failed : Check.applyAll checks value = .error problem) :
    Refuses validator location (.obj members) ⟨location ++ [.key head.name], problem⟩
  | form {head : FieldHead} {embedding : Embedding} {nested : Validator} {members : Json.Members}
    {value : Json} {problem : Problem} (mem : .embedded head embedding nested ∈ validator.rules)
    (given : head.given? members = some value)
    (tested : (value.isNull && !head.required) = false)
    (misfit : embedding.misfit? value = some problem) :
    Refuses validator location (.obj members) ⟨location ++ [.key head.name], problem⟩

/-- Says of a violation in which entries of the maps around it it is, outermost first. -/
def Violation.inEntries (keys : List String) (violation : Violation) : Violation :=
  keys.foldr inEntry violation

theorem Violation.inEntries_append (keys others : List String) (violation : Violation) :
    violation.inEntries (keys ++ others) = (violation.inEntries others).inEntries keys :=
  List.foldr_append

@[simp] theorem Violation.location_inEntries (keys : List String) (violation : Violation) :
    (violation.inEntries keys).location = violation.location := by
  induction keys with
  | nil => rfl
  | cons key keys ih => exact ih

namespace Embedding

variable {document : Location → Json → Checked Json} {location steps : Location}
  {violations : List Violation} {violation : Violation} {keys : List String}
  {embedding : Embedding} {value out inner : Json}

theorem exists_getElem?_of_checkItems {index : Nat} {items : List Json}
    (h : checkItems document location index items = .error violations) :
    ∃ offset item, items[offset]? = some item ∧
      document (location ++ [.index (index + offset)]) item = .error violations := by
  induction items generalizing index with
  | nil => cases h
  | cons item items ih =>
    rw [checkItems, bind_eq_error] at h
    obtain first | ⟨out, -, rest⟩ := h
    · exact ⟨0, item, rfl, first⟩
    · obtain rest | ⟨outs, -, done⟩ := bind_eq_error.1 rest
      · obtain ⟨offset, other, found, failed⟩ := ih rest
        refine ⟨offset + 1, other, found, ?_⟩
        rwa [Nat.add_assoc, Nat.add_comm 1] at failed
      · cases done

theorem exists_mem_of_checkEntries {entries : Json.Members}
    (h : checkEntries document location entries = .error violations)
    (mem : violation ∈ violations) :
    ∃ key entry others cause, (key, entry) ∈ entries ∧
      document (location ++ [.key key]) entry = .error others ∧ cause ∈ others ∧
      violation = cause.inEntry key := by
  induction entries generalizing violations with
  | nil => cases h
  | cons first entries ih =>
    obtain ⟨key, entry⟩ := first
    have later : ∀ others, checkEntries document location entries = .error others →
        violation ∈ others → ∃ key' entry' others cause, (key', entry') ∈ (key, entry) :: entries ∧
          document (location ++ [.key key']) entry' = .error others ∧ cause ∈ others ∧
          violation = cause.inEntry key' := by
      intro others rest listed
      obtain ⟨key, entry, others, cause, found, failed⟩ := ih rest listed
      exact ⟨key, entry, others, cause, List.mem_cons_of_mem _ found, failed⟩
    have here : ∀ others, document (location ++ [.key key]) entry = .error others →
        violation ∈ others.map (.inEntry key) → ∃ key' entry' others cause,
          (key', entry') ∈ (key, entry) :: entries ∧
          document (location ++ [.key key']) entry' = .error others ∧ cause ∈ others ∧
          violation = cause.inEntry key' := by
      intro others failed listed
      obtain ⟨cause, told, rfl⟩ := List.mem_map.1 listed
      exact ⟨key, entry, others, cause, List.mem_cons_self, failed, told, rfl⟩
    rw [checkEntries] at h
    split at h
    · cases h
    · rename_i rest
      cases h
      exact later _ rest mem
    · rename_i failed _
      cases h
      exact here _ failed mem
    · rename_i failed rest
      cases h
      rw [List.mem_append] at mem
      exact mem.elim (here _ failed) (later _ rest)

theorem check_eq_error (h : embedding.check document location value = .error violations) :
    (∃ problem, embedding.misfit? value = some problem ∧ violations = [⟨location, problem⟩]) ∨
    ∀ violation ∈ violations, ∃ steps keys inner others cause,
      embedding.Locates value steps keys inner ∧
      document (location ++ steps) inner = .error others ∧ cause ∈ others ∧
      violation = cause.inEntries keys := by
  have whole : ∀ members, document location (.obj members) = .error violations →
      embedding.Locates value [] [] (.obj members) →
      ∀ violation ∈ violations, ∃ steps keys inner others cause,
        embedding.Locates value steps keys inner ∧
        document (location ++ steps) inner = .error others ∧ cause ∈ others ∧
        violation = cause.inEntries keys := by
    intro members failed locates violation mem
    refine ⟨[], [], _, violations, violation, locates, ?_, mem, rfl⟩
    rwa [List.append_nil]
  cases embedding with
  | one =>
    cases value with
    | obj members => exact .inr (whole members h .one)
    | _ =>
      cases h
      exact .inl ⟨_, rfl, rfl⟩
  | many =>
    cases value with
    | obj members => exact .inr (whole members h .single)
    | arr items =>
      right
      intro violation mem
      obtain ⟨offset, item, found, failed⟩ :=
        exists_getElem?_of_checkItems (map_eq_error.1 h)
      rw [Nat.zero_add] at failed
      exact ⟨_, [], item, violations, violation, .item found, failed, mem, rfl⟩
    | _ =>
      cases h
      exact .inl ⟨_, rfl, rfl⟩
  | keyed model =>
    cases value with
    | obj entries =>
      right
      intro violation mem
      obtain ⟨key, entry, others, cause, found, failed, listed, rfl⟩ :=
        exists_mem_of_checkEntries (map_eq_error.1 h) mem
      exact ⟨_, [key], entry, others, cause, .entry found, failed, listed, rfl⟩
    | _ =>
      cases h
      exact .inl ⟨_, rfl, rfl⟩

theorem exists_of_checkItems_eq_ok {index offset : Nat} {items outs : List Json}
    (h : checkItems document location index items = .ok outs)
    (found : items[offset]? = some inner) :
    ∃ out, document (location ++ [.index (index + offset)]) inner = .ok out := by
  induction items generalizing index offset outs with
  | nil => cases found
  | cons item items ih =>
    obtain ⟨out, rest, first, others, rfl⟩ := checkItems_cons_eq_ok.1 h
    cases offset with
    | zero =>
      cases found
      exact ⟨out, first⟩
    | succ offset =>
      obtain ⟨out, passed⟩ := ih others found
      rw [Nat.add_assoc, Nat.add_comm 1] at passed
      exact ⟨out, passed⟩

theorem exists_of_checkEntries_eq_ok {key : String} {entries outs : Json.Members}
    (h : checkEntries document location entries = .ok outs) (mem : (key, inner) ∈ entries) :
    ∃ out, document (location ++ [.key key]) inner = .ok out := by
  induction entries generalizing outs with
  | nil => cases mem
  | cons entry entries ih =>
    obtain ⟨out, rest, first, others, rfl⟩ := checkEntries_cons_eq_ok.1 h
    cases mem with
    | head => exact ⟨out, first⟩
    | tail _ mem => exact ih others mem

theorem Locates.passes (locates : embedding.Locates value steps keys inner)
    (h : embedding.check document location value = .ok out) :
    ∃ out, document (location ++ steps) inner = .ok out := by
  cases locates with
  | one =>
    rw [List.append_nil]
    exact ⟨out, h⟩
  | single =>
    rw [List.append_nil]
    exact ⟨out, h⟩
  | item found =>
    obtain ⟨outs, checked, -⟩ := map_eq_ok.1 h
    have passed := exists_of_checkItems_eq_ok checked found
    rwa [Nat.zero_add] at passed
  | entry mem =>
    obtain ⟨outs, checked, -⟩ := map_eq_ok.1 h
    exact exists_of_checkEntries_eq_ok checked mem

theorem Locates.isNull_eq_false (h : embedding.Locates value steps keys inner) :
    value.isNull = false := by
  cases h <;> rfl

theorem misfit?_eq_none (h : embedding.check document location value = .ok out) :
    embedding.misfit? value = none := by
  cases embedding <;> cases value <;> first | rfl | cases h

end Embedding

namespace FieldRule

variable {head : FieldHead} {embedding : Embedding} {nested : Validator} {checks : List Check}
  {location : Location} {value : Json} {violations : List Violation}

theorem check_value_eq_error :
    (FieldRule.value head checks).check location value = .error violations ↔
      (value.isNull && !head.required) = false ∧
        ∃ problem, Check.applyAll checks value = .error problem ∧
          violations = [⟨location, problem⟩] := by
  rw [check]
  cases value.isNull && !head.required with
  | true => simp
  | false =>
    simp only [Bool.false_eq_true, if_false, true_and, mapError_eq_error]
    exact exists_congr fun problem => and_congr_right fun _ => eq_comm

theorem check_embedded_eq_error :
    (FieldRule.embedded head embedding nested).check location value = .error violations ↔
      (value.isNull && !head.required) = false ∧
        embedding.check (fun location document => nested.check location document) location value =
          .error violations := by
  rw [check]
  cases value.isNull && !head.required with
  | true => simp
  | false => simp

end FieldRule

namespace Validator

variable {validator inner : Validator} {location steps : Location} {document reached out : Json}
  {keys : List String} {violation : Violation} {violations : List Violation}

theorem Refuses.of_check_eq_error (form : ∀ members, document ≠ .obj members)
    (h : validator.check location document = .error violations) :
    ∃ cause, validator.Refuses location document cause ∧ violations = [cause] := by
  cases validator with
  | mk typeName rejectsUnknown rules =>
    cases document with
    | obj members => exact absurd rfl (form members)
    | _ =>
      cases h
      exact ⟨_, .notObject form, rfl⟩

/-- Every violation tells where in the document it is: the steps of its location lead to a document
that its validator refuses for it, and the problem names the keys of the maps on the way. -/
theorem Orderly.located (orderly : validator.Orderly)
    (h : validator.check location document = .error violations) (mem : violation ∈ violations) :
    ∃ steps keys inner reached cause, validator.Descends document steps keys inner reached ∧
      inner.Refuses (location ++ steps) reached cause ∧ violation = cause.inEntries keys := by
  induction orderly generalizing location document violations violation with
  | @intro typeName rejectsUnknown rules nodup nested ih =>
    have here : ∀ cause, (Validator.mk typeName rejectsUnknown rules).Refuses location document
        cause → ∃ steps keys inner reached cause',
          (Validator.mk typeName rejectsUnknown rules).Descends document steps keys inner reached ∧
          inner.Refuses (location ++ steps) reached cause' ∧
          cause = cause'.inEntries keys := by
      intro cause refuses
      refine ⟨[], [], _, _, cause, .here, ?_, rfl⟩
      rwa [List.append_nil]
    cases document with
    | obj members =>
      obtain ⟨before, rule, rest, split, -, fails⟩ | ⟨-, strict, key, unknown, rfl⟩ :=
        (Validator.Orderly.intro nodup nested).refused h
      · have declared : rule ∈ rules := by
          change rules = before ++ rule :: rest at split
          simp [split]
        cases fails with
        | missing absent undefaulted required =>
          cases List.mem_singleton.1 mem
          exact here _ (.missing declared absent undefaulted required)
        | @wrong value _ given failed =>
          cases rule with
          | value head checks =>
            obtain ⟨tested, problem, applied, rfl⟩ := FieldRule.check_value_eq_error.1 failed
            cases List.mem_singleton.1 mem
            exact here _ (.value declared given tested applied)
          | embedded head embedding target =>
            obtain ⟨tested, failed⟩ := FieldRule.check_embedded_eq_error.1 failed
            obtain ⟨problem, misfit, rfl⟩ | inside := Embedding.check_eq_error failed
            · cases List.mem_singleton.1 mem
              exact here _ (.form declared given tested misfit)
            · obtain ⟨first, around, document, others, cause, locates, failed, listed, rfl⟩ :=
                inside violation mem
              obtain ⟨rest, keys, inner, reached, cause', descends, refuses, rfl⟩ :=
                ih head embedding target declared failed listed
              refine ⟨_, around ++ keys, inner, reached, cause',
                .inside declared given locates descends, ?_, ?_⟩
              · simpa only [FieldRule.name, FieldRule.head, List.append_assoc, List.cons_append,
                  List.nil_append] using refuses
              · rw [Violation.inEntries_append]
      · have stray := List.find?_some unknown
        cases List.mem_singleton.1 mem
        refine here _ (.unknown strict (List.mem_of_find?_eq_some unknown) ?_)
        simpa using stray
    | _ =>
      obtain ⟨cause, refuses, rfl⟩ := Refuses.of_check_eq_error (by simp) h
      cases List.mem_singleton.1 mem
      exact here _ refuses

theorem Orderly.not_refuses (orderly : validator.Orderly) {other : Location}
    (h : validator.check location document = .ok out) :
    ¬ validator.Refuses other document violation := by
  intro refuses
  cases validator with
  | mk typeName rejectsUnknown rules =>
    cases document with
    | obj members =>
      obtain ⟨after, checked, known, rfl⟩ := check_obj_eq_ok.1 h
      cases refuses with
      | notObject form => exact form members rfl
      | @missing rule _ mem absent undefaulted required =>
        exact not_fails_of_checkRules orderly.nodup_names checked mem
          (.missing absent undefaulted required)
      | unknown strict mem undeclared => exact undeclared (known strict _ mem)
      | value mem given tested failed =>
        obtain ⟨out, passed, -⟩ := check_of_checkRules orderly.nodup_names checked mem given
        rw [FieldRule.check_value_eq_error.2 ⟨tested, _, failed, rfl⟩] at passed
        cases passed
      | form mem given tested misfit =>
        obtain ⟨out, passed, -⟩ := check_of_checkRules orderly.nodup_names checked mem given
        rw [FieldRule.check, if_neg (by simp [tested])] at passed
        rw [Embedding.misfit?_eq_none passed] at misfit
        cases misfit
    | _ => cases h

theorem Descends.passes (descends : validator.Descends document steps keys inner reached)
    (orderly : validator.Orderly) (h : validator.check location document = .ok out) :
    ∃ out, inner.check (location ++ steps) reached = .ok out := by
  induction descends generalizing location out with
  | here =>
    rw [List.append_nil]
    exact ⟨out, h⟩
  | @inside validator nested inner head embedding members value document reached steps rest keys
      others rule given locates descends ih =>
    cases validator with
    | mk typeName rejectsUnknown rules =>
      obtain ⟨after, checked, -, -⟩ := check_obj_eq_ok.1 h
      obtain ⟨out, passed, -⟩ := check_of_checkRules orderly.nodup_names checked rule given
      rw [FieldRule.check, if_neg (by simp [locates.isNull_eq_false])] at passed
      obtain ⟨out, passed⟩ := locates.passes passed
      obtain ⟨out, passed⟩ := ih (orderly.of_embedded rule) passed
      refine ⟨out, ?_⟩
      simpa only [FieldRule.name, FieldRule.head, List.append_assoc, List.cons_append,
        List.nil_append] using passed

theorem Descends.orderly (descends : validator.Descends document steps keys inner reached)
    (orderly : validator.Orderly) : inner.Orderly := by
  induction descends with
  | here => exact orderly
  | inside rule _ _ _ ih => exact ih (orderly.of_embedded rule)

theorem Descends.occurs (descends : validator.Descends document steps keys inner reached) :
    inner.Occurs validator := by
  induction descends with
  | here => exact .refl
  | inside rule _ _ _ ih => exact .embedded rule ih

end Validator

end DocModel
