import Mathlib.Data.List.Perm.Subperm
import DocModel.Proofs.Compile.Consistent
import DocModel.Proofs.Lists
import DocModel.Proofs.Source.Embeds

namespace DocModel

namespace Compiler

/-- The rule of a field, given how the definition that it embeds is compiled. -/
def unsharedRule (compiler : Compiler) (target : String → Except Failure Validator)
    (owner : String) : String × Field → Except Failure FieldRule
  | (name, field) =>
    match field.embeds? with
    | none => .ok (.value (field.head name) field.checks)
    | some (embedding, declared) =>
      match target (compiler.canonical declared) with
      | .ok nested => .ok (.embedded (field.head name) embedding nested)
      | .error failure => .error (field.blame owner name (compiler.canonical declared) failure)

/-- Compiles a name without a table: what a definition embeds is compiled anew wherever it stands,
and all that is kept is the stack of the definitions around it. -/
def compileUnshared (compiler : Compiler) :
    Nat → List String → String → Except Failure Validator
  | 0, _, name => .error (.endless name)
  | fuel + 1, stack, name =>
    if name ∈ stack then .error (.schema (.cyclicDefinition stack name))
    else do
      let definition ← (compiler.load name).1.mapError .schema
      let target := compiler.compileUnshared fuel (stack ++ [definition.name])
      let rules ← definition.fields.mapM (compiler.unsharedRule target definition.name)
      return .mk definition.name compiler.rejectsUnknown rules

variable {compiler : Compiler} {fuel : Nat} {stack : List String} {name : String}
  {validator inner : Validator}

theorem unsharedRule_eq_embedded {target : String → Except Failure Validator} {owner : String}
    {field : String × Field} {head : FieldHead} {embedding : Embedding} {nested : Validator}
    (h : compiler.unsharedRule target owner field = .ok (.embedded head embedding nested)) :
    ∃ declared, field.2.embeds? = some (embedding, declared) ∧
      target (compiler.canonical declared) = .ok nested := by
  obtain ⟨name, field⟩ := field
  simp only [unsharedRule] at h
  split at h
  · cases h
  · split at h
    · cases h
      exact ⟨_, ‹_›, ‹_›⟩
    · cases h

theorem unsharedRule_of_target {target target' : String → Except Failure Validator}
    {owner : String} {field : String × Field} {rule : FieldRule}
    (h : compiler.unsharedRule target owner field = .ok rule)
    (agree : ∀ head embedding nested declared, rule = .embedded head embedding nested →
      field.2.embeds? = some (embedding, declared) →
      target (compiler.canonical declared) = .ok nested →
      target' (compiler.canonical declared) = .ok nested) :
    compiler.unsharedRule target' owner field = .ok rule := by
  obtain ⟨name, field⟩ := field
  cases embeds : field.embeds? with
  | none => simpa only [unsharedRule, embeds] using h
  | some embedded =>
    obtain ⟨embedding, declared⟩ := embedded
    simp only [unsharedRule, embeds] at h ⊢
    cases result : target (compiler.canonical declared) with
    | error error =>
      rw [result] at h
      cases h
    | ok nested =>
      rw [result] at h
      cases h
      rw [agree _ _ _ _ rfl embeds result]

theorem compileUnshared_of_load {definition : Definition} (closed : name ∉ stack)
    (load : (compiler.load name).1 = .ok definition) :
    compiler.compileUnshared (fuel + 1) stack name =
      (definition.fields.mapM (compiler.unsharedRule
        (compiler.compileUnshared fuel (stack ++ [definition.name])) definition.name)).map
          (.mk definition.name compiler.rejectsUnknown) := by
  simp only [compileUnshared, closed, if_false, load, Except.mapError, bind, Except.bind]
  cases definition.fields.mapM (compiler.unsharedRule
    (compiler.compileUnshared fuel (stack ++ [definition.name])) definition.name) <;> rfl

theorem compileUnshared_eq_ok :
    compiler.compileUnshared (fuel + 1) stack name = .ok validator ↔
      name ∉ stack ∧ ∃ definition rules,
        (compiler.load name).1 = .ok definition ∧
        List.Forall₂ (fun field rule => compiler.unsharedRule
          (compiler.compileUnshared fuel (stack ++ [definition.name])) definition.name field =
            .ok rule) definition.fields rules ∧
        validator = .mk definition.name compiler.rejectsUnknown rules := by
  by_cases closed : name ∈ stack
  · simp [compileUnshared, closed]
  · cases load : (compiler.load name).1 with
    | error error => simp [compileUnshared, closed, load, Except.mapError, bind, Except.bind]
    | ok definition =>
      simp only [compileUnshared_of_load closed load, map_eq_ok, mapM_eq_ok, closed,
        not_false_eq_true, true_and, Except.ok.injEq]
      constructor
      · intro compiled
        obtain ⟨rules, fields, rfl⟩ := compiled
        exact ⟨definition, rules, rfl, fields, rfl⟩
      · intro compiled
        obtain ⟨_, rules, rfl, fields, rfl⟩ := compiled
        exact ⟨rules, fields, rfl⟩

theorem typeName_of_compileUnshared (fixed : compiler.canonical name = name)
    (h : compiler.compileUnshared fuel stack name = .ok validator) :
    validator.typeName = name := by
  cases fuel with
  | zero => cases h
  | succ fuel =>
    obtain ⟨-, definition, rules, load, -, rfl⟩ := compileUnshared_eq_ok.1 h
    exact ((load_eq_ok_iff_holds fixed).1 load).name_eq

theorem compileUnshared_embedded (fixed : compiler.canonical name = name)
    (h : compiler.compileUnshared (fuel + 1) stack name = .ok validator) {head : FieldHead}
    {embedding : Embedding} {nested : Validator}
    (rule : .embedded head embedding nested ∈ validator.rules) :
    ∃ target, compiler.source.Embeds name target ∧
      compiler.compileUnshared fuel (stack ++ [name]) target = .ok nested := by
  obtain ⟨-, definition, rules, load, fields, rfl⟩ := compileUnshared_eq_ok.1 h
  have holds := (load_eq_ok_iff_holds fixed).1 load
  obtain ⟨⟨field, declaration⟩, mem, compiled⟩ := exists_left_of_forall₂ fields rule
  obtain ⟨declared, embeds, target⟩ := unsharedRule_eq_embedded compiled
  rw [holds.name_eq] at target
  exact ⟨_, holds.embeds mem embeds, target⟩

theorem typeName_notMem_stack (regular : compiler.source.Regular)
    (fixed : compiler.canonical name = name)
    (h : compiler.compileUnshared fuel stack name = .ok validator)
    (occurs : inner.Occurs validator) : inner.typeName ∉ stack := by
  induction fuel generalizing stack name validator with
  | zero => cases h
  | succ fuel ih =>
    cases occurs with
    | refl =>
      rw [typeName_of_compileUnshared fixed h]
      exact (compileUnshared_eq_ok.1 h).1
    | embedded rule occurs =>
      obtain ⟨target, step, nested⟩ := compileUnshared_embedded fixed h rule
      exact fun mem => ih (step.canonical_eq regular) nested occurs (List.mem_append_left _ mem)

/-- A stack of definitions of the source leaves so much fuel that it cannot run out. -/
structure Roomy (compiler : Compiler) (fuel : Nat) (stack : List String) : Prop where
  nodup : stack.Nodup
  subset : stack ⊆ compiler.source.names
  length_lt : compiler.source.names.length < fuel + stack.length

theorem Roomy.ne_zero (h : compiler.Roomy fuel stack) : fuel ≠ 0 := by
  intro empty
  have bounded := (List.subperm_of_subset h.nodup h.subset).length_le
  have enough := h.length_lt
  omega

theorem Roomy.push (h : compiler.Roomy (fuel + 1) stack) (closed : name ∉ stack)
    (known : name ∈ compiler.source.names) : compiler.Roomy fuel (stack ++ [name]) where
  nodup := by
    have nodup := h.nodup.concat closed
    rwa [List.concat_eq_append] at nodup
  subset := List.append_subset.2 ⟨h.subset, by simpa using known⟩
  length_lt := by
    have enough := h.length_lt
    simp only [List.length_append, List.length_singleton]
    omega

theorem roomy_nil (enough : compiler.source.names.length < fuel) : compiler.Roomy fuel [] where
  nodup := .nil
  subset := List.nil_subset _
  length_lt := by simpa using enough

theorem length_lt_depth (compiler : Compiler) : compiler.source.names.length < compiler.depth :=
  Nat.lt_of_lt_of_le (by omega) (Nat.le_mul_of_pos_right _ (by omega))

/-- What a name compiles to does not depend on the stack, as long as none of the definitions met
stands on it. -/
theorem compileUnshared_of_stack (regular : compiler.source.Regular) {depth : Nat}
    {around : List String} (fixed : compiler.canonical name = name)
    (h : compiler.compileUnshared fuel stack name = .ok validator)
    (apart : ∀ inner : Validator, inner.Occurs validator → inner.typeName ∉ around)
    (roomy : compiler.Roomy depth around) :
    compiler.compileUnshared depth around name = .ok validator := by
  induction fuel generalizing stack name validator depth around with
  | zero => cases h
  | succ fuel ih =>
    obtain ⟨depth, rfl⟩ := Nat.exists_eq_succ_of_ne_zero roomy.ne_zero
    have named := typeName_of_compileUnshared fixed h
    have closed : name ∉ around := named ▸ apart validator .refl
    obtain ⟨-, definition, rules, load, fields, rfl⟩ := compileUnshared_eq_ok.1 h
    have holds := (load_eq_ok_iff_holds fixed).1 load
    refine compileUnshared_eq_ok.2 ⟨closed, definition, rules, load, ?_, rfl⟩
    refine forall₂_imp_of_mem fields fun field mem rule mem' compiled => ?_
    refine unsharedRule_of_target compiled ?_
    intro head embedding nested declared same embeds target
    subst same
    have fixed' := settledFields_of_holds regular holds _ _ _ _ mem embeds
    refine ih fixed' target ?_ (holds.name_eq ▸ roomy.push closed holds.mem_names)
    -- What is met below was compiled with this name on the stack, so it is another definition.
    intro inner occurs
    have off := typeName_notMem_stack regular fixed' target occurs
    have away := apart inner (.embedded mem' occurs)
    rw [List.mem_append, List.mem_singleton, not_or] at off ⊢
    exact ⟨away, off.2⟩

theorem compileUnshared_of_occurs (regular : compiler.source.Regular)
    (fixed : compiler.canonical name = name)
    (h : compiler.compileUnshared fuel stack name = .ok validator)
    (occurs : inner.Occurs validator) :
    ∃ fuel stack, compiler.canonical inner.typeName = inner.typeName ∧
      compiler.compileUnshared fuel stack inner.typeName = .ok inner := by
  induction occurs generalizing fuel stack name with
  | refl =>
    rw [typeName_of_compileUnshared fixed h]
    exact ⟨fuel, stack, fixed, h⟩
  | embedded rule occurs ih =>
    cases fuel with
    | zero => cases h
    | succ fuel =>
      obtain ⟨target, step, nested⟩ := compileUnshared_embedded fixed h rule
      exact ih (step.canonical_eq regular) nested

end Compiler

end DocModel
