import DocModel.Proofs.Compile.Resolved
import DocModel.Proofs.Validator.Lenient

namespace DocModel

/-- The same compiler, but unknown keys pass its validators. -/
def Compiler.lenient (compiler : Compiler) : Compiler := { compiler with rejectsUnknown := false }

namespace CompileState

/-- Unknown keys pass the validators of the second state; a call finds nothing else changed. -/
structure Loosened (state other : CompileState) : Prop where
  stack_eq : other.stack = state.stack
  lookup_eq : ∀ name, (other.finished.lookup name).map Compiled.validator =
    (state.finished.lookup name).map (·.validator.lenient)

variable {state other : CompileState} {name : String}

theorem Loosened.lookup_eq_none (h : state.Loosened other)
    (fresh : state.finished.lookup name = none) : other.finished.lookup name = none := by
  have same := h.lookup_eq name
  rwa [fresh, Option.map_none, Option.map_eq_none_iff] at same

theorem Loosened.noteAll (h : state.Loosened other) (activities : List Activity) :
    (state.noteAll activities).Loosened (other.noteAll activities) :=
  ⟨h.stack_eq, h.lookup_eq⟩

theorem Loosened.enter (h : state.Loosened other) (name : String) :
    (state.enter name).Loosened (other.enter name) :=
  ⟨congrArg (· ++ [name]) h.stack_eq, h.lookup_eq⟩

theorem Loosened.abandon (h : state.Loosened other) (name : String) (error : Failure) :
    (state.abandon name error).Loosened (other.abandon name error) :=
  ⟨congrArg List.dropLast h.stack_eq, h.lookup_eq⟩

theorem Loosened.complete (h : state.Loosened other) {compiled compiled' : Compiled}
    (same : compiled'.validator = compiled.validator.lenient) (name : String)
    (fields fields' : Nat) :
    (state.complete name compiled fields).Loosened (other.complete name compiled' fields') where
  stack_eq := congrArg List.dropLast h.stack_eq
  lookup_eq := by
    intro asked
    rw [lookup_complete, lookup_complete]
    split
    · rw [Option.map_some, Option.map_some, same]
    · exact h.lookup_eq asked

end CompileState

/-- The second run comes to the same in a state where unknown keys pass, the values being
related. -/
inductive Run.Loosened {α : Type} (Related : α → α → Prop) : Run α → Run α → Prop
  | ok {value value' : α} {state other : CompileState} (related : Related value value')
    (states : state.Loosened other) : Loosened Related (.ok value state) (.ok value' other)
  | error {error : Failure} {state other : CompileState} (states : state.Loosened other) :
    Loosened Related (.error error state) (.error error other)

/-- Of the second, unknown keys pass the validator. -/
def Compiled.Loosened (compiled other : Compiled) : Prop :=
  other.validator = compiled.validator.lenient

/-- Of the second list, unknown keys pass the rules. -/
def LoosenedRules (rules others : List (FieldRule × List Identity)) : Prop :=
  others.map (·.1) = lenientRules (rules.map (·.1))

namespace Compiler

section

variable (compiler : Compiler) {target target' : String → Compiling Compiled}
  {state other : CompileState} (targets : ∀ name {state other}, state.Loosened other →
  Run.Loosened Compiled.Loosened ((target name).run state) ((target' name).run other))

include targets

theorem compileField_lenient (owner : String) (field : String × Field)
    (states : state.Loosened other) :
    Run.Loosened (fun rule rule' => rule'.1 = rule.1.lenient)
      ((compiler.compileField target owner field).run state)
      ((compiler.lenient.compileField target' owner field).run other) := by
  obtain ⟨name, field⟩ := field
  cases embeds : field.embeds? with
  | none =>
    rw [run_compileField_plain compiler target embeds,
      run_compileField_plain compiler.lenient target' embeds]
    exact .ok rfl states
  | some embedded =>
    obtain ⟨embedding, declared⟩ := embedded
    rw [run_compileField_embedded compiler target embeds,
      run_compileField_embedded compiler.lenient target' embeds]
    have nested := targets (compiler.canonical declared) states
    rw [show compiler.lenient.canonical declared = compiler.canonical declared from rfl]
    generalize (target (compiler.canonical declared)).run state = run at nested
    generalize (target' (compiler.canonical declared)).run other = run' at nested
    cases nested with
    | error states => exact .error states
    | ok related states =>
      refine .ok ?_ states
      rw [related]
      rfl

theorem compileFields_lenient (owner : String) (fields : List (String × Field))
    (states : state.Loosened other) :
    Run.Loosened LoosenedRules
      ((fields.mapM (compiler.compileField target owner)).run state)
      ((fields.mapM (compiler.lenient.compileField target' owner)).run other) := by
  induction fields generalizing state other with
  | nil => exact .ok rfl states
  | cons field fields ih =>
    rw [run_mapM_cons, run_mapM_cons]
    have first := compileField_lenient compiler targets owner field states
    generalize (compiler.compileField target owner field).run state = run at first
    generalize (compiler.lenient.compileField target' owner field).run other = run' at first
    cases first with
    | error states => exact .error states
    | @ok rule rule' next next' related states =>
      have rest := ih states
      dsimp only
      generalize (fields.mapM (compiler.compileField target owner)).run next = run at rest
      generalize (fields.mapM (compiler.lenient.compileField target' owner)).run next' = run'
        at rest
      cases rest with
      | error states => exact .error states
      | ok others states =>
        refine .ok ?_ states
        rw [LoosenedRules, List.map_cons, List.map_cons, lenientRules, related, others]

theorem build_lenient (definition : Definition) (states : state.Loosened other) :
    Run.Loosened Compiled.Loosened ((compiler.build target definition).run state)
      ((compiler.lenient.build target' definition).run other) := by
  rw [run_build, run_build, compileFields_eq, compileFields_eq]
  have fields := compileFields_lenient compiler targets definition.name
    definition.fields (states.enter definition.name)
  generalize (definition.fields.mapM (compiler.compileField target definition.name)).run
    (state.enter definition.name) = run at fields
  generalize (definition.fields.mapM (compiler.lenient.compileField target' definition.name)).run
    (other.enter definition.name) = run' at fields
  cases fields with
  | error states => exact .error (states.abandon _ _)
  | @ok rules rules' next next' related states =>
    have same : (compiler.lenient.assemble definition rules' next').validator =
        (compiler.assemble definition rules next).validator.lenient := by
      rw [assemble, assemble, related]
      rfl
    exact .ok same (states.complete same _ _ _)

end

/-- The switch for unknown keys decides nothing about whether and how a name compiles. -/
theorem compileNamed_lenient (compiler : Compiler) (fuel : Nat) (name : String)
    {state other : CompileState} (states : state.Loosened other) :
    Run.Loosened Compiled.Loosened ((compiler.compileNamed fuel name).run state)
      ((compiler.lenient.compileNamed fuel name).run other) := by
  induction fuel generalizing name state other with
  | zero => exact .error states
  | succ fuel ih =>
    cases finished : state.finished.lookup name with
    | some compiled =>
      have same := states.lookup_eq name
      rw [finished, Option.map_some, Option.map_eq_some_iff] at same
      obtain ⟨compiled', finished', same⟩ := same
      rw [run_compileNamed_shared finished, run_compileNamed_shared finished']
      exact .ok same states
    | none =>
      have finished' := states.lookup_eq_none finished
      by_cases open_ : name ∈ state.stack
      · have open' : name ∈ other.stack := states.stack_eq ▸ open_
        rw [run_compileNamed_cyclic finished open_, run_compileNamed_cyclic finished' open',
          states.stack_eq]
        exact .error states
      · have closed' : name ∉ other.stack := states.stack_eq ▸ open_
        rw [run_compileNamed_fresh finished open_, run_compileNamed_fresh finished' closed',
          show compiler.lenient.load name = compiler.load name from rfl]
        rcases compiler.load name with ⟨error | definition, activities⟩
        · exact .error (states.noteAll activities)
        · exact build_lenient compiler (fun name _ _ => ih name) definition
            (states.noteAll activities)

theorem loosened_nil (built built' : Nat) :
    ({ built } : CompileState).Loosened { built := built' } :=
  ⟨rfl, fun _ => rfl⟩

theorem compile_lenient (compiler : Compiler) (built built' : Nat) (requested : String) :
    (∃ error, (compiler.compile built requested).result = .error error ∧
      (compiler.lenient.compile built' requested).result = .error error) ∨
    ∃ compiled compiled', (compiler.compile built requested).result = .ok compiled ∧
      (compiler.lenient.compile built' requested).result = .ok compiled' ∧
      compiled'.validator = compiled.validator.lenient := by
  have runs := compileNamed_lenient compiler compiler.depth
    (compiler.canonical requested) (loosened_nil built built')
  rw [compile, compile, show compiler.lenient.depth = compiler.depth from rfl,
    show compiler.lenient.canonical requested = compiler.canonical requested from rfl]
  generalize (compiler.compileNamed compiler.depth (compiler.canonical requested)).run { built } =
    run at runs
  generalize (compiler.lenient.compileNamed compiler.depth (compiler.canonical requested)).run
    { built := built' } = run' at runs
  cases runs with
  | error states => exact .inl ⟨_, rfl, rfl⟩
  | ok related states => exact .inr ⟨_, _, rfl, rfl, related⟩

theorem Compiles.of_occurs {compiler : Compiler} {schema : Schema} {validator inner : Validator}
    (h : compiler.Compiles schema validator) (occurs : inner.Occurs validator) :
    ∃ schema', compiler.Compiles schema' inner := by
  induction occurs generalizing schema with
  | refl => exact ⟨schema, h⟩
  | @embedded outer head embedding nested rule occurs ih =>
    obtain ⟨resolves, same⟩ := h
    cases resolves with
    | @intro definition fields declared plain embedded resolves =>
      rw [Schema.validator] at same
      subst same
      obtain ⟨field, mem, made⟩ := List.mem_map.1 rule
      cases field with
      | plain name field =>
        rw [SchemaField.rule] at made
        cases made
      | embedded name field embedding target =>
        rw [SchemaField.rule] at made
        cases made
        exact ih ⟨resolves _ _ _ _ mem, rfl⟩

theorem Compiles.fieldNames_eq {compiler : Compiler} {schema : Schema} {validator : Validator}
    (h : compiler.Compiles schema validator) :
    validator.fieldNames = schema.definition.fieldNames := by
  obtain ⟨resolves, rfl⟩ := h
  cases resolves with
  | @intro definition fields declared plain embedded resolves =>
    rw [Schema.validator, Validator.fieldNames, Validator.rules, SchemaField.rule_name, declared,
      definition.fields_names]
    rfl

/-- The switch for unknown keys affects undeclared keys and nothing else: a type compiles with it
exactly if it compiles without, with the same error otherwise. What is returned with the switch on
is returned with it off. What passes the check only with it off holds, wherever a violation is, a
key that the definition of the object there does not declare. -/
theorem switch_affects_undeclared_keys (source : Source) (built built' : Nat)
    (requested : String) :
    (∀ error, (Compiler.compile ⟨source, true⟩ built requested).result = .error error ↔
      (Compiler.compile ⟨source, false⟩ built' requested).result = .error error) ∧
    ∀ strict lenient, (Compiler.compile ⟨source, true⟩ built requested).result = .ok strict →
      (Compiler.compile ⟨source, false⟩ built' requested).result = .ok lenient →
        (∀ (oracle : Option Oracle) (document out : Json),
          (strict.validator.validate oracle document).result = .ok out →
            (lenient.validator.validate oracle document).result = .ok out) ∧
        (∀ (service : Option Service) (document out : Json),
          (strict.validator.validateBy service document).result = .ok out →
            lenient.validator.validateBy service document =
              strict.validator.validateBy service document) ∧
        ∀ (document passed : Json) (violations : List Violation),
          lenient.validator.check [] document = .ok passed →
            strict.validator.check [] document = .error violations →
              ∀ violation ∈ violations, ∃ steps keys inner members schema key,
                strict.validator.Descends document steps keys inner (.obj members) ∧
                Compiles ⟨source, true⟩ schema inner ∧
                key ∈ Json.Members.keys members ∧ key ∉ schema.definition.fieldNames ∧
                violation = .inEntries keys ⟨steps ++ [.key key], .wrongKey⟩ := by
  obtain ⟨error, on, off⟩ | ⟨compiled, compiled', on, off, same⟩ :=
    compile_lenient ⟨source, true⟩ built built' requested
  · rw [show (Compiler.mk source true).lenient = ⟨source, false⟩ from rfl] at off
    simp [on, off]
  · rw [show (Compiler.mk source true).lenient = ⟨source, false⟩ from rfl] at off
    refine ⟨by simp [on, off], ?_⟩
    intro strict lenient on' off'
    rw [on] at on'
    rw [off] at off'
    cases on'
    cases off'
    obtain ⟨schema, -, compiles⟩ := compiles_of_compile on
    have orderly := (Gives.compile on).orderly
    rw [same]
    refine ⟨?_, ?_, ?_⟩
    · intro oracle document out returned
      rw [Validator.validate_eq_validateBy] at returned ⊢
      rw [Validator.validateBy_lenient returned, returned]
    · intro service document out returned
      exact Validator.validateBy_lenient returned
    · intro document passed violations checked refused violation mem
      obtain ⟨steps, keys, inner, members, key, descends, held, undeclared, rfl⟩ :=
        orderly.unknown_of_lenient checked refused mem
      obtain ⟨governing, compiles⟩ := compiles.of_occurs descends.occurs
      rw [compiles.fieldNames_eq] at undeclared
      exact ⟨steps, keys, inner, members, governing, key, descends, compiles, held, undeclared, rfl⟩

/-- A basket of two things, each with a member that is not declared. -/
def labelledBasket : Json :=
  .obj [("total", .num (.int 3)), ("things", .obj [
    ("1", .obj [("amount", .num (.int 1)), ("colour", .str "red")]),
    ("2", .obj [("amount", .num (.int 4)), ("size", .num (.int 7))])])]

/-- A basket of which all is declared. -/
def plainBasket : Json :=
  .obj [("things", .obj [("1", .obj [("amount", .num (.int 1))])]), ("total", .num (.int 3))]

theorem switch_affects_undeclared_keys_baskets :
    ∃ strict lenient passed violations out,
      (Compiler.compile ⟨baskets.source, true⟩ 0 "Basket").result = .ok strict ∧
      (Compiler.compile ⟨baskets.source, false⟩ 0 "Basket").result = .ok lenient ∧
      lenient.validator.check [] labelledBasket = .ok passed ∧
      strict.validator.check [] labelledBasket = .error violations ∧
      violations.map Violation.path = ["things.1.colour", "things.2.size"] ∧
      (∀ violation ∈ violations, ∃ keys location,
        violation = .inEntries keys ⟨location, .wrongKey⟩) ∧
      (strict.validator.validate none plainBasket).result = .ok out ∧
      (lenient.validator.validate none plainBasket).result = .ok out := by
  have on : (Compiler.compile ⟨baskets.source, true⟩ 0 "Basket").result.toOption.any
      (fun compiled => (errorOf? (compiled.validator.check [] labelledBasket)).any
        (·.map Violation.path = ["things.1.colour", "things.2.size"]) &&
          (compiled.validator.validate none plainBasket).result.isOk) := by
    decide +kernel
  have off : (Compiler.compile ⟨baskets.source, false⟩ 0 "Basket").result.toOption.any
      (fun compiled => (compiled.validator.check [] labelledBasket).isOk) := by
    decide +kernel
  obtain ⟨strict, compiled, tested⟩ := exists_of_any_toOption on
  obtain ⟨lenient, compiled', tested'⟩ := exists_of_any_toOption off
  obtain ⟨refused, returned⟩ := Bool.and_eq_true_iff.1 tested
  obtain ⟨violations, failed, paths⟩ := (Option.any_eq_true _ _).1 refused
  obtain ⟨passed, checked⟩ := isOk_iff.1 tested'
  obtain ⟨out, returned⟩ := isOk_iff.1 returned
  obtain ⟨returns, -, unknown⟩ :=
    (switch_affects_undeclared_keys baskets.source 0 0 "Basket").2 _ _ compiled compiled'
  refine ⟨strict, lenient, passed, violations, out, compiled, compiled', checked,
    errorOf?_eq_some.1 failed, of_decide_eq_true paths, ?_, returned, returns _ _ _ returned⟩
  intro violation mem
  obtain ⟨steps, keys, inner, members, schema, key, -, -, -, -, same⟩ :=
    unknown _ _ _ checked (errorOf?_eq_some.1 failed) violation mem
  exact ⟨keys, _, same⟩

end Compiler

end DocModel
