import DocModel.Proofs.Compile.Sharing
import DocModel.Proofs.Source.Embeds

open Relation (ReflTransGen TransGen)

namespace DocModel

namespace Compiler

variable {compiler : Compiler} {fuel : Nat} {stack : List String} {name target : String}
  {error : Failure}

theorem unsharedRule_eq_error {target : String → Except Failure Validator} {owner : String}
    {field : String × Field} (h : compiler.unsharedRule target owner field = .error error) :
    ∃ embedding declared fault, field.2.embeds? = some (embedding, declared) ∧
      target (compiler.canonical declared) = .error fault ∧
      error = field.2.blame owner field.1 (compiler.canonical declared) fault := by
  obtain ⟨name, field⟩ := field
  simp only [unsharedRule] at h
  split at h
  · cases h
  · split at h
    · cases h
    · cases h
      exact ⟨_, _, _, ‹_›, ‹_›, rfl⟩

/-- When every definition is there, compiling fails on a walk that closes, and goes on from the
stack. -/
theorem closes_of_compileUnshared_eq_error (regular : compiler.source.Regular)
    (fixed : compiler.canonical name = name) (complete : compiler.source.Complete name)
    (roomy : compiler.Roomy fuel stack)
    (walk : (stack ++ [name]).IsChain compiler.source.Embeds)
    (h : compiler.compileUnshared fuel stack name = .error error) :
    ∃ chain repeated, error = .schema (.cyclicDefinition chain repeated) ∧ repeated ∈ chain ∧
      (chain ++ [repeated]).IsChain compiler.source.Embeds ∧
      stack ++ [name] <+: chain ++ [repeated] := by
  induction fuel generalizing stack name error with
  | zero => exact absurd rfl roomy.ne_zero
  | succ fuel ih =>
    by_cases closed : name ∈ stack
    · simp only [compileUnshared, closed, if_true, Except.error.injEq] at h
      exact ⟨stack, name, h.symm, closed, walk, List.prefix_rfl⟩
    · obtain ⟨definition, holds⟩ := complete name .refl
      have load := (load_eq_ok_iff_holds fixed).2 holds
      rw [compileUnshared_of_load closed load, map_eq_error] at h
      obtain ⟨⟨field, declaration⟩, mem, failed⟩ :
          ∃ field ∈ definition.fields, compiler.unsharedRule
            (compiler.compileUnshared fuel (stack ++ [definition.name])) definition.name field =
              .error error := exists_of_mapM_eq_error h
      obtain ⟨embedding, declared, fault, embeds, nested, rfl⟩ := unsharedRule_eq_error failed
      rw [holds.name_eq] at nested
      have step : compiler.source.Embeds name (compiler.canonical declared) :=
        holds.embeds mem embeds
      -- The field that fails takes the walk one step further.
      have further : (stack ++ [name] ++ [compiler.canonical declared]).IsChain
          compiler.source.Embeds := by
        refine List.isChain_append.2 ⟨walk, .singleton _, ?_⟩
        intro last found next found'
        cases found'
        simp only [List.getLast?_append, List.getLast?_singleton, Option.some_or,
          Option.mem_some_iff] at found
        exact found ▸ step
      obtain ⟨chain, repeated, rfl, again, walk', leads⟩ := ih (step.canonical_eq regular)
        (complete.step step) (roomy.push closed holds.mem_names) further nested
      refine ⟨chain, repeated, Field.blame_of_code_ne ?_ .., again, walk',
        (List.prefix_append _ _).trans leads⟩
      intro same
      cases same

theorem compileUnshared_of_embeds (fixed : compiler.canonical name = name) {validator : Validator}
    (h : compiler.compileUnshared fuel stack name = .ok validator)
    (step : compiler.source.Embeds name target) :
    ∃ fuel head embedding nested, .embedded head embedding nested ∈ validator.rules ∧
      compiler.compileUnshared fuel (stack ++ [name]) target = .ok nested := by
  cases fuel with
  | zero => cases h
  | succ fuel =>
    obtain ⟨-, definition, rules, load, fields, rfl⟩ := compileUnshared_eq_ok.1 h
    have holds := (load_eq_ok_iff_holds fixed).1 load
    obtain ⟨definition', holds', declared, target, rfl⟩ := step
    obtain rfl := holds.unique holds'
    obtain ⟨field, declaration, embedding, mem, embeds⟩ := Definition.mem_targets.1 target
    obtain ⟨rule, mem', compiled⟩ := exists_right_of_forall₂ fields mem
    simp only [unsharedRule, embeds] at compiled
    split at compiled
    · cases compiled
      rw [holds.name_eq] at *
      exact ⟨fuel, _, _, _, mem', ‹_›⟩
    · cases compiled

/-- Whatever is reached from a definition that compiles compiles too, below all that led to it. -/
theorem compileUnshared_of_reached (regular : compiler.source.Regular)
    (fixed : compiler.canonical name = name) {validator : Validator}
    (h : compiler.compileUnshared fuel stack name = .ok validator)
    (reached : TransGen compiler.source.Embeds name target) :
    ∃ fuel around nested, name ∈ around ∧
      compiler.compileUnshared fuel around target = .ok nested := by
  induction reached with
  | single step =>
    obtain ⟨fuel, -, -, nested, -, h⟩ := compileUnshared_of_embeds fixed h step
    exact ⟨fuel, _, nested, by simp, h⟩
  | tail before step ih =>
    obtain ⟨fuel, around, nested, mem, h⟩ := ih
    have fixed' := Source.canonical_eq_of_reached regular fixed before.to_reflTransGen
    obtain ⟨fuel', -, -, nested', -, h'⟩ := compileUnshared_of_embeds fixed' h step
    exact ⟨fuel', _, nested', List.mem_append_left _ mem, h'⟩

theorem exists_compileUnshared_of_reached (regular : compiler.source.Regular)
    (fixed : compiler.canonical name = name) {validator : Validator}
    (h : compiler.compileUnshared fuel stack name = .ok validator)
    (reached : ReflTransGen compiler.source.Embeds name target) :
    ∃ fuel stack nested, compiler.compileUnshared fuel stack target = .ok nested := by
  obtain rfl | reached := Relation.reflTransGen_iff_eq_or_transGen.1 reached
  · exact ⟨fuel, stack, validator, h⟩
  · obtain ⟨fuel, around, nested, -, h⟩ := compileUnshared_of_reached regular fixed h reached
    exact ⟨fuel, around, nested, h⟩

theorem complete_of_compileUnshared (regular : compiler.source.Regular)
    (fixed : compiler.canonical name = name) {validator : Validator}
    (h : compiler.compileUnshared fuel stack name = .ok validator) :
    compiler.source.Complete name := by
  intro reached path
  have fixed' := Source.canonical_eq_of_reached regular fixed path
  obtain ⟨fuel, stack, nested, h⟩ := exists_compileUnshared_of_reached regular fixed h path
  cases fuel with
  | zero => cases h
  | succ fuel =>
    obtain ⟨-, definition, rules, load, -⟩ := compileUnshared_eq_ok.1 h
    exact ⟨definition, (load_eq_ok_iff_holds fixed').1 load⟩

theorem not_reachesCycle_of_compileUnshared (regular : compiler.source.Regular)
    (fixed : compiler.canonical name = name) {validator : Validator}
    (h : compiler.compileUnshared fuel stack name = .ok validator) :
    ¬ compiler.source.ReachesCycle name := by
  intro reaches
  obtain ⟨repeated, reached, cycle⟩ := reaches
  have fixed' := Source.canonical_eq_of_reached regular fixed reached
  obtain ⟨fuel, stack, nested, h⟩ := exists_compileUnshared_of_reached regular fixed h reached
  -- Going round the cycle puts the repeated definition on the stack before it is compiled again.
  obtain ⟨fuel, around, nested, mem, again⟩ := compileUnshared_of_reached regular fixed' h cycle
  cases fuel with
  | zero => cases again
  | succ fuel => exact (compileUnshared_eq_ok.1 again).1 mem

variable {requested : String}

/-- When all that is reached from a definition is there, the definition compiles if and only if it
reaches no cycle; otherwise the error tells a walk that closes. -/
theorem compile_iff_no_cycle (regular : compiler.source.Regular)
    (settled : compiler.source.Settled requested)
    (complete : compiler.source.Complete (compiler.canonical requested)) (built : Nat) :
    ((∃ compiled, (compiler.compile built requested).result = .ok compiled) ↔
      ¬ compiler.source.ReachesCycle (compiler.canonical requested)) ∧
    (compiler.source.ReachesCycle (compiler.canonical requested) →
      ∃ chain repeated,
        (compiler.compile built requested).result =
          .error (.schema (.cyclicDefinition chain repeated)) ∧
        compiler.source.Closes (compiler.canonical requested) chain repeated ∧
        (SchemaError.cyclicDefinition chain repeated).message =
          s!"Definition '{repeated}' embeds itself: " ++
            " -> ".intercalate (chain ++ [repeated])) := by
  have unshared := result_compile regular settled built (Nat.lt_succ_self _)
  have failed : ∀ error, (compiler.compile built requested).result = .error error →
      ∃ chain repeated, error = .schema (.cyclicDefinition chain repeated) ∧
        compiler.source.Closes (compiler.canonical requested) chain repeated := by
    intro error result
    rw [result] at unshared
    obtain ⟨chain, repeated, rfl, mem, walk, leads⟩ := closes_of_compileUnshared_eq_error regular
      settled complete (roomy_nil (Nat.lt_succ_self _)) (.singleton _) unshared.symm
    refine ⟨chain, repeated, rfl, ?_, walk, mem⟩
    cases chain with
    | nil => cases mem
    | cons first rest => exact congrArg some (List.cons_prefix_cons.1 leads).1.symm
  have compiled : ∀ compiled, (compiler.compile built requested).result = .ok compiled →
      ¬ compiler.source.ReachesCycle (compiler.canonical requested) := by
    intro compiled result
    rw [result] at unshared
    exact not_reachesCycle_of_compileUnshared regular settled unshared.symm
  cases result : (compiler.compile built requested).result with
  | ok value =>
    have acyclic := compiled _ result
    exact ⟨⟨fun _ => acyclic, fun _ => ⟨value, rfl⟩⟩, fun cycle => absurd cycle acyclic⟩
  | error error =>
    obtain ⟨chain, repeated, rfl, closes⟩ := failed _ result
    refine ⟨⟨?_, fun acyclic => absurd closes.reachesCycle acyclic⟩, fun _ => ?_⟩
    · intro success
      obtain ⟨value, h⟩ := success
      cases h
    · exact ⟨chain, repeated, rfl, closes, closes.message_eq⟩

/-- A definition that leads into a cycle on which it does not stand itself. -/
def lasso : Compiler where
  source := Registry.source ⟨[
    ("Top", .obj [("properties", .obj [("left", .obj [("type", .str "Left")])])]),
    ("Left", .obj [("relations", .obj [
      ("right", .obj [("type", .str "embedsMany"), ("model", .str "Right.json")])])]),
    ("Right", .obj [("properties", .obj [("left", .obj [("type", .str "Left")])])])]⟩

theorem compile_iff_no_cycle_lasso :
    lasso.source.ReachesCycle "Top" ∧ ∃ chain repeated,
      (lasso.compile 0 "Top").result = .error (.schema (.cyclicDefinition chain repeated)) ∧
      lasso.source.Closes "Top" chain repeated := by
  have regular : lasso.source.Regular := Registry.regular_of_isRegular (by decide +kernel)
  have canonical : lasso.canonical "Top" = "Top" := by decide +kernel
  have settled : lasso.source.Settled "Top" := congrArg lasso.canonical canonical
  have complete : lasso.source.Complete "Top" :=
    Registry.complete_of_isClosed (by decide +kernel) List.mem_cons_self
  have failed : (lasso.compile 0 "Top").result.isOk = false := by decide +kernel
  obtain ⟨compiles, fails⟩ := compile_iff_no_cycle regular settled (canonical ▸ complete) 0
  rw [canonical] at compiles fails
  have cycle : lasso.source.ReachesCycle "Top" := by
    by_contra acyclic
    rw [isOk_iff.2 (compiles.2 acyclic)] at failed
    cases failed
  obtain ⟨chain, repeated, result, closes, -⟩ := fails cycle
  exact ⟨cycle, chain, repeated, result, closes⟩

end Compiler

end DocModel
