import DocModel.Proofs.Compile.Unshared

namespace DocModel

namespace Compiler

variable {compiler : Compiler} {fuel : Nat} {stack : List String} {name owner requested : String}
  {state : CompileState} {validator : Validator}

/-- Every validator in the table is what its name compiles to without a table. -/
def Reproducible (compiler : Compiler) (state : CompileState) : Prop :=
  ∀ name compiled, state.finished.lookup name = some compiled →
    ∃ fuel stack, compiler.compileUnshared fuel stack name = .ok compiled.validator

/-- The table saves work and nothing else: a call for a name gives what compiling without the table
gives, whatever fuel that has, as long as it cannot run out. -/
def NamedUnshared (compiler : Compiler) (fuel : Nat) (name : String) (state : CompileState)
    (run : Run Compiled) : Prop :=
  state.Consistent → compiler.canonical name = name → compiler.Reproducible state →
    compiler.Roomy fuel state.stack →
    compiler.Reproducible run.state ∧
      ∀ depth, compiler.Roomy depth state.stack →
        compiler.compileUnshared depth state.stack name = run.result.map (·.validator)

theorem FieldsRun.unshared (regular : compiler.source.Regular)
    (targets : ∀ name state run, NamedRun compiler fuel name state run →
      compiler.NamedUnshared fuel name state run)
    {fields : List (String × Field)} {run : Run (List (FieldRule × List Identity))}
    (h : FieldsRun compiler fuel owner fields state run) (consistent : state.Consistent)
    (settled : compiler.SettledFields fields) (reproducible : compiler.Reproducible state)
    (roomy : compiler.Roomy fuel state.stack) :
    compiler.Reproducible run.state ∧
      ∀ depth, compiler.Roomy depth state.stack →
        fields.mapM (compiler.unsharedRule (compiler.compileUnshared depth state.stack) owner) =
          run.result.map (·.map (·.1)) := by
  induction fields generalizing state run with
  | nil =>
    cases h
    exact ⟨reproducible, fun _ _ => rfl⟩
  | cons first fields ih =>
    cases h with
    | @plain _ _ name field _ _ run plain rest =>
      obtain ⟨after, agree⟩ := ih rest consistent settled.tail reproducible roomy
      refine ⟨by rwa [Run.state_cons], fun depth roomy' => ?_⟩
      rw [mapM_cons_of_ok (by rw [unsharedRule, plain]), agree depth roomy', Run.result_cons]
      cases run <;> rfl
    | @embedded _ _ name field _ _ embedding declared nested middle run embeds target rest =>
      have fixed := settled _ _ _ _ List.mem_cons_self embeds
      obtain ⟨between, extended, -⟩ := target.consistent regular consistent fixed
      have stack : middle.stack = state.stack := extended.stack
      obtain ⟨reproducible', alone⟩ := targets _ _ _ target consistent fixed reproducible roomy
      obtain ⟨after, agree⟩ := ih rest between settled.tail reproducible' (stack ▸ roomy)
      rw [stack] at agree
      refine ⟨by rwa [Run.state_cons], fun depth roomy' => ?_⟩
      have first : compiler.unsharedRule (compiler.compileUnshared depth state.stack) owner
          (name, field) = .ok (.embedded (field.head name) embedding nested.validator) := by
        simp only [unsharedRule, embeds, alone depth roomy']
        rfl
      rw [mapM_cons_of_ok first, agree depth roomy', Run.result_cons]
      cases run <;> rfl
    | @failed _ _ name field _ _ embedding declared error next embeds target =>
      have fixed := settled _ _ _ _ List.mem_cons_self embeds
      obtain ⟨after, alone⟩ := targets _ _ _ target consistent fixed reproducible roomy
      refine ⟨after, fun depth roomy' => ?_⟩
      have first : compiler.unsharedRule (compiler.compileUnshared depth state.stack) owner
          (name, field) =
            .error (field.blame owner name (compiler.canonical declared) error) := by
        simp only [unsharedRule, embeds, alone depth roomy']
        rfl
      rw [mapM_cons_of_error first]
      rfl

theorem Reproducible.of_finished {compiled : Compiled} {depth : Nat}
    (reproducible : compiler.Reproducible state) (regular : compiler.source.Regular)
    (consistent : state.Consistent) (fixed : compiler.canonical name = name)
    (finished : state.finished.lookup name = some compiled)
    (roomy : compiler.Roomy depth state.stack) :
    compiler.compileUnshared depth state.stack name = .ok compiled.validator := by
  obtain ⟨fuel, stack, alone⟩ := reproducible _ _ finished
  -- The entry was made on another stack. All that occurs in it is finished, so none of it stands
  -- on this one.
  refine compileUnshared_of_stack regular fixed alone ?_ roomy
  intro inner occurs mem
  obtain ⟨entry, found, -⟩ := consistent.closed _ _ finished _ occurs
  rw [consistent.apart _ mem] at found
  cases found

theorem Reproducible.complete {compiled : Compiled} (reproducible : compiler.Reproducible state)
    (alone : compiler.compileUnshared fuel stack name = .ok compiled.validator) (fields : Nat) :
    compiler.Reproducible (state.complete name compiled fields) := by
  intro other entry found
  rw [CompileState.lookup_complete] at found
  split at found
  · rename_i same
    cases found
    exact ⟨fuel, stack, same ▸ alone⟩
  · exact reproducible _ _ found

theorem compileUnshared_eq_conclude {definition : Definition}
    {run : Run (List (FieldRule × List Identity))} (closed : name ∉ stack)
    (load : (compiler.load name).1 = .ok definition)
    (fields : definition.fields.mapM (compiler.unsharedRule
      (compiler.compileUnshared fuel (stack ++ [definition.name])) definition.name) =
        run.result.map (·.map (·.1))) :
    compiler.compileUnshared (fuel + 1) stack name =
      (compiler.conclude definition run).result.map (·.validator) := by
  rw [compileUnshared_of_load closed load, fields]
  cases run <;> rfl

theorem NamedRun.unshared (regular : compiler.source.Regular) {run : Run Compiled}
    (h : NamedRun compiler fuel name state run) : compiler.NamedUnshared fuel name state run := by
  induction fuel generalizing name state run with
  | zero => exact fun _ _ _ roomy => absurd rfl roomy.ne_zero
  | succ fuel ih =>
    intro consistent fixed reproducible roomy
    cases h with
    | shared finished =>
      refine ⟨reproducible, fun depth roomy' => ?_⟩
      exact reproducible.of_finished regular consistent fixed finished roomy'
    | cyclic fresh open_ =>
      refine ⟨reproducible, fun depth roomy' => ?_⟩
      obtain ⟨depth, rfl⟩ := Nat.exists_eq_succ_of_ne_zero roomy'.ne_zero
      simp [compileUnshared, open_, Run.result, Except.map]
    | unloadable fresh closed load =>
      refine ⟨reproducible, fun depth roomy' => ?_⟩
      obtain ⟨depth, rfl⟩ := Nat.exists_eq_succ_of_ne_zero roomy'.ne_zero
      simp [compileUnshared, closed, load, Run.result, Except.map, Except.mapError, bind,
        Except.bind]
    | @loaded _ _ _ definition activities run fresh closed load fields =>
      have holds := (load_eq_ok_iff_holds fixed).1 (congrArg Prod.fst load)
      have named := holds.name_eq
      have entered : ((state.noteAll activities).enter definition.name).Consistent :=
        named ▸ consistent.enter fresh closed activities
      have push : ∀ {depth}, compiler.Roomy (depth + 1) state.stack →
          compiler.Roomy depth (state.stack ++ [definition.name]) :=
        fun roomy => named ▸ roomy.push closed holds.mem_names
      obtain ⟨after, agree⟩ := fields.unshared regular (fun _ _ _ => ih) entered
        (settledFields_of_holds regular holds) reproducible (push roomy)
      have same : ∀ depth, compiler.Roomy depth state.stack →
          compiler.compileUnshared depth state.stack name =
            (compiler.conclude definition run).result.map (·.validator) := by
        intro depth roomy'
        obtain ⟨depth, rfl⟩ := Nat.exists_eq_succ_of_ne_zero roomy'.ne_zero
        have below := agree depth (push roomy')
        exact compileUnshared_eq_conclude closed (congrArg Prod.fst load) below
      refine ⟨?_, same⟩
      cases run with
      | error error next => exact after
      | ok rules next =>
        have alone := same _ roomy
        rw [← named] at alone
        exact after.complete alone rules.length

theorem result_compile (regular : compiler.source.Regular)
    (settled : compiler.source.Settled requested) (built : Nat)
    (enough : compiler.source.names.length < fuel) :
    (compiler.compile built requested).result.map (·.validator) =
      compiler.compileUnshared fuel [] (compiler.canonical requested) := by
  have run := NamedRun.of_compileNamed compiler compiler.depth
    (compiler.canonical requested) { built }
  have initial : ({ built } : CompileState).Consistent := by
    constructor <;> simp
  obtain ⟨-, agree⟩ := run.unshared regular initial settled (by simp [Reproducible])
    (roomy_nil compiler.length_lt_depth)
  rw [show ([] : List String) = ({ built } : CompileState).stack from rfl,
    agree fuel (roomy_nil enough), compile, Outcome.result_of]

/-- The rule of a field embeds what compiling its target alone gives. -/
def EmbedsAlone (compiler : Compiler) (field : String × Field) (rule : FieldRule) : Prop :=
  ∀ embedding declared, field.2.embeds? = some (embedding, declared) → ∀ built,
    ∃ alone, (compiler.compile built declared).result = .ok alone ∧
      rule = .embedded (field.2.head field.1) embedding alone.validator

theorem embedsAlone_of_compileUnshared (regular : compiler.source.Regular)
    (fixed : compiler.canonical name = name)
    (h : compiler.compileUnshared fuel stack name = .ok validator) :
    ∃ definition, compiler.source.Holds name definition ∧
      List.Forall₂ compiler.EmbedsAlone definition.fields validator.rules := by
  cases fuel with
  | zero => cases h
  | succ fuel =>
    obtain ⟨-, definition, rules, load, fields, rfl⟩ := compileUnshared_eq_ok.1 h
    have holds := (load_eq_ok_iff_holds fixed).1 load
    refine ⟨definition, holds, forall₂_imp_of_mem fields ?_⟩
    intro field mem rule _ compiled embedding declared embeds built
    have settled : compiler.canonical (compiler.canonical declared) = compiler.canonical declared :=
      settledFields_of_holds regular holds _ _ _ _ mem embeds
    simp only [unsharedRule, embeds] at compiled
    split at compiled
    · rename_i nested target
      cases compiled
      have alone := compileUnshared_of_stack regular settled target (fun _ _ => List.not_mem_nil)
        (roomy_nil (Nat.lt_succ_self _))
      rw [← result_compile regular settled built (Nat.lt_succ_self _), map_eq_ok] at alone
      obtain ⟨alone, result, rfl⟩ := alone
      exact ⟨alone, result, rfl⟩
    · cases compiled

/-- Compiling with the table gives the validator or the error that compiling without it gives;
whatever was compiled before, an embedded definition compiles to what it compiles to alone. -/
theorem sharing_unobservable (regular : compiler.source.Regular)
    (settled : compiler.source.Settled requested) (built : Nat) :
    (∀ fuel, compiler.source.names.length < fuel →
      (compiler.compile built requested).result.map (·.validator) =
        compiler.compileUnshared fuel [] (compiler.canonical requested)) ∧
    ∀ compiled, (compiler.compile built requested).result = .ok compiled →
      ∀ outer : Validator, outer.Occurs compiled.validator →
        ∃ definition, compiler.source.Holds outer.typeName definition ∧
          List.Forall₂ compiler.EmbedsAlone definition.fields outer.rules := by
  refine ⟨fun fuel enough => result_compile regular settled built enough, ?_⟩
  intro compiled result outer occurs
  have whole := result_compile regular settled built (Nat.lt_succ_self _)
  rw [result] at whole
  obtain ⟨fuel, stack, fixed, inner⟩ := compileUnshared_of_occurs regular settled whole.symm occurs
  exact embedsAlone_of_compileUnshared regular fixed inner

/-- One definition that embeds another along two branches. -/
def diamond : Compiler where
  source := Registry.source ⟨[
    ("Top", .obj [("relations", .obj [
      ("left", .obj [("type", .str "embedsOne"), ("model", .str "Left.json")]),
      ("right", .obj [("type", .str "embedsMany"), ("model", .str "Right")])])]),
    ("Left", .obj [("properties", .obj [("leaf", .obj [("type", .str "Leaf")])])]),
    ("Right", .obj [("properties", .obj [("leaf", .obj [("type", .str "Leaf.json")])])]),
    ("Leaf", .obj [("properties", .obj [("text", .obj [("type", .str "string")])])])]⟩

theorem sharing_unobservable_diamond :
    ∃ compiled, (diamond.compile 0 "Top").result = .ok compiled ∧
      diamond.compileUnshared 5 [] "Top" = .ok compiled.validator ∧
      ∃ definition, diamond.source.Holds compiled.validator.typeName definition ∧
        List.Forall₂ diamond.EmbedsAlone definition.fields compiled.validator.rules := by
  have regular : diamond.source.Regular := Registry.regular_of_isRegular (by decide +kernel)
  have settled : diamond.source.Settled "Top" := by
    rw [Source.Settled]
    decide +kernel
  obtain ⟨same, alone⟩ := sharing_unobservable regular settled 0
  obtain ⟨compiled, result⟩ : ∃ compiled, (diamond.compile 0 "Top").result = .ok compiled :=
    isOk_iff.1 (by decide +kernel)
  have unshared := same 5 (by decide)
  rw [result, show diamond.canonical "Top" = "Top" by decide +kernel] at unshared
  exact ⟨compiled, result, unshared.symm, alone _ result _ .refl⟩

end Compiler

end DocModel
