import DocModel.Proofs.Compile.Resolved

namespace DocModel.Compiler

variable {compiler : Compiler} {fuel built : Nat} {name owner requested : String}
  {state : CompileState}

theorem FieldsRun.built_le
    (targets : ∀ name state run, NamedRun compiler fuel name state run →
      state.built ≤ run.state.built)
    {fields : List (String × Field)} {run : Run (List (FieldRule × List Identity))}
    (h : FieldsRun compiler fuel owner fields state run) : state.built ≤ run.state.built := by
  induction fields generalizing state run with
  | nil =>
    cases h
    exact Nat.le_refl _
  | cons first fields ih =>
    cases h with
    | plain plain rest =>
      rw [Run.state_cons]
      exact ih rest
    | embedded embeds target rest =>
      rw [Run.state_cons]
      exact Nat.le_trans (targets _ _ _ target) (ih rest)
    | failed embeds target => exact targets _ _ _ target

theorem NamedRun.built_le {run : Run Compiled} (h : NamedRun compiler fuel name state run) :
    state.built ≤ run.state.built := by
  induction fuel generalizing name state run with
  | zero =>
    cases h
    exact Nat.le_refl _
  | succ fuel ih =>
    cases h with
    | shared finished => exact Nat.le_refl _
    | cyclic fresh open_ => exact Nat.le_refl _
    | unloadable fresh closed load => exact Nat.le_refl _
    | @loaded _ _ _ definition activities run fresh closed load fields =>
      have inside : state.built ≤ run.state.built := fields.built_le fun _ _ _ => ih
      cases run with
      | error error next => exact inside
      | ok rules next => exact Nat.le_succ_of_le inside

/-- What is compiled before anything is finished is the last validator to be built. -/
theorem NamedRun.serial {compiled : Compiled} {next : CompileState}
    (h : NamedRun compiler fuel name state (.ok compiled next))
    (fresh : state.finished.lookup name = none) :
    state.built ≤ compiled.identity.serial ∧ next.built = compiled.identity.serial + 1 := by
  generalize same : (.ok compiled next : Run Compiled) = run at h
  cases h with
  | exhausted => cases same
  | shared finished =>
    rw [fresh] at finished
    cases finished
  | cyclic fresh open_ => cases same
  | unloadable fresh closed load => cases same
  | @loaded fuel _ _ definition activities run fresh closed load fields =>
    cases run with
    | error error next => cases same
    | ok rules after =>
      cases same
      have inside : state.built ≤ after.built := fields.built_le fun _ _ _ => NamedRun.built_le
      exact ⟨inside, rfl⟩

theorem built_le_compile (compiler : Compiler) (built : Nat) (requested : String) :
    built ≤ (compiler.compile built requested).built := by
  have run := NamedRun.of_compileNamed compiler compiler.depth (compiler.canonical requested)
    { built }
  rw [compile]
  cases result : (compiler.compileNamed compiler.depth (compiler.canonical requested)).run
      { built } with
  | error error next =>
    rw [result] at run
    exact run.built_le
  | ok compiled next =>
    rw [result] at run
    exact run.built_le

theorem serial_of_compile {compiled : Compiled}
    (h : (compiler.compile built requested).result = .ok compiled) :
    built ≤ compiled.identity.serial ∧
      compiled.identity.serial < (compiler.compile built requested).built := by
  have run := NamedRun.of_compileNamed compiler compiler.depth (compiler.canonical requested)
    { built }
  rw [compile] at h ⊢
  cases result : (compiler.compileNamed compiler.depth (compiler.canonical requested)).run
      { built } with
  | error error next =>
    rw [result] at h
    cases h
  | ok value next =>
    rw [result] at h run
    cases h
    obtain ⟨le, eq⟩ := run.serial rfl
    refine ⟨le, ?_⟩
    change _ < next.built
    rw [eq]
    exact Nat.lt_succ_self _

theorem typeName_of_compile {compiled : Compiled}
    (h : (compiler.compile built requested).result = .ok compiled) :
    compiled.validator.typeName = compiler.source.canonical^[3] requested := by
  obtain ⟨schema, load, compiles⟩ := compiles_of_compile h
  have holds : compiler.source.Holds (compiler.source.canonical^[3] requested) schema.definition :=
    load_eq_ok_iff.1 load
  rw [compiles.validator_eq, ← holds.name_eq]
  cases schema
  rw [Schema.validator]
  rfl

end DocModel.Compiler
