import DocModel.Proofs.Compile.Cycle
import DocModel.Proofs.Compile.Stacks
import DocModel.Summary

namespace DocModel

namespace Compiler

variable {compiler : Compiler} {fuel fuel' : Nat} {name called : String}
  {state next : CompileState} {definition : Definition} {known known' : List String}

theorem run_build_congr {target target' : String → Compiling Compiled}
    (same : ∀ called next, FieldsCall compiler target definition.name definition.fields
      (state.enter definition.name) called next →
        (target called).run next = (target' called).run next) :
    (compiler.build target definition).run state =
      (compiler.build target' definition).run state := by
  rw [run_build, run_build, compileFields_eq, compileFields_eq, run_fields_congr same]

theorem run_compileNamed_congr
    (same : ∀ called next, compiler.Nests ⟨fuel + 1, name, state⟩ ⟨fuel, called, next⟩ →
      (compiler.compileNamed fuel called).run next =
        (compiler.compileNamed fuel' called).run next) :
    (compiler.compileNamed (fuel + 1) name).run state =
      (compiler.compileNamed (fuel' + 1) name).run state := by
  cases fresh : state.finished.lookup name with
  | some compiled => rw [run_compileNamed_shared fresh, run_compileNamed_shared fresh]
  | none =>
    by_cases open_ : name ∈ state.stack
    · rw [run_compileNamed_cyclic fresh open_, run_compileNamed_cyclic fresh open_]
    · rw [run_compileNamed_fresh fresh open_, run_compileNamed_fresh fresh open_]
      cases load : compiler.load name with
      | mk result activities =>
        cases result with
        | error error => rfl
        | ok definition =>
          apply run_build_congr
          intro called next call
          exact same called next (.intro fresh open_ load call)

section

variable (regular : compiler.source.Regular) (lists : compiler.source.Lists known)
  (lists' : compiler.source.Lists known')

include regular lists lists'

/-- A call that fits comes to the same with any fuel with which it fits. -/
theorem Fits.run_eq (h : compiler.Fits known ⟨fuel, name, state⟩)
    (h' : compiler.Fits known' ⟨fuel', name, state⟩) :
    (compiler.compileNamed fuel name).run state = (compiler.compileNamed fuel' name).run state := by
  induction fuel generalizing fuel' name state with
  | zero => exact absurd h.fuel_pos (Nat.lt_irrefl 0)
  | succ fuel ih =>
    obtain ⟨fuel', rfl⟩ := Nat.exists_eq_succ_of_ne_zero (Nat.ne_of_gt h'.fuel_pos)
    apply run_compileNamed_congr
    intro called next nests
    exact ih (h.nests regular lists nests) (h'.nests regular lists' nests)

end

section

variable {owner : String} {stack : List String} {fields : List (String × Field)}

theorem FieldsRun.conclusive {run : Run (List (FieldRule × List Identity))}
    (targets : ∀ called state run, NamedRun compiler fuel called state run →
      compiler.canonical called = called → state.stack = stack → Conclusive run.result)
    (h : FieldsRun compiler fuel owner fields state run) (settled : compiler.SettledFields fields)
    (pushed : state.stack = stack) : Conclusive run.result := by
  induction fields generalizing state run with
  | nil =>
    cases h
    exact nofun
  | cons first fields ih =>
    cases h with
    | plain plain rest =>
      rw [Run.result_cons]
      exact (ih rest settled.tail pushed).map _
    | embedded embeds target rest =>
      rw [Run.result_cons]
      exact (ih rest settled.tail (target.stack_eq.trans pushed)).map _
    | failed embeds target =>
      have fixed := settled _ _ _ _ List.mem_cons_self embeds
      have inner := targets _ _ _ target fixed pushed
      intro name blamed
      exact Field.blame_ne_endless (fun name same => inner name (congrArg Except.error same)) _ _ _
        (Except.error.inj blamed)

theorem conclusive_conclude {definition : Definition} {run : Run (List (FieldRule × List Identity))}
    (h : Conclusive run.result) : Conclusive (compiler.conclude definition run).result := by
  cases run with
  | ok rules next => exact nofun
  | error failure next =>
    intro name failed
    cases failed
    exact h name rfl

/-- A call that fits does not come to the bound on the depth. -/
theorem NamedRun.conclusive (regular : compiler.source.Regular)
    (lists : compiler.source.Lists known) {run : Run Compiled}
    (h : NamedRun compiler fuel name state run) (fits : compiler.Fits known ⟨fuel, name, state⟩) :
    Conclusive run.result := by
  induction fuel generalizing name state run with
  | zero => exact absurd fits.fuel_pos (Nat.lt_irrefl 0)
  | succ fuel ih =>
    cases h with
    | shared finished => exact nofun
    | cyclic fresh open_ => exact nofun
    | unloadable fresh closed load => exact nofun
    | @loaded _ _ _ definition activities run fresh closed load fields =>
      have loaded := congrArg Prod.fst load
      have holds := (load_eq_ok_iff_holds fits.fixed).1 loaded
      obtain ⟨named, mem⟩ := fits.mem_known lists loaded
      have entered : ((state.noteAll activities).enter definition.name).stack =
          state.stack ++ [name] := congrArg (state.stack ++ [·]) named
      have settled := settledFields_of_holds regular holds
      refine conclusive_conclude (fields.conclusive ?_ settled entered)
      intro called next run target fixed pushed
      exact ih target (fits.push closed mem fixed pushed)

end

theorem stack_enter (empty : state.stack = []) (name : String) :
    (state.enter name).stack = [name] := by
  rw [CompileState.enter, CompileState.push, CompileState.note, empty, List.nil_append]

/-- A definition names only settled definitions. -/
def SettledDefinition (compiler : Compiler) (definition : Definition) : Prop :=
  ∀ declared ∈ definition.targets, compiler.source.Settled declared

theorem SettledDefinition.settledFields (h : compiler.SettledDefinition definition) :
    compiler.SettledFields definition.fields :=
  fun _ _ _ _ mem embeds => h _ (Definition.mem_targets.2 ⟨_, _, _, mem, embeds⟩)

theorem fits_of_pushed (fixed : compiler.canonical called = called) (pushed : next.stack = [name])
    (mem : name ∈ known) (enough : known.length ≤ fuel) :
    compiler.Fits known ⟨fuel, called, next⟩ := by
  refine ⟨fixed, ?_, ?_, ?_⟩
  · rw [pushed]
    exact List.nodup_singleton _
  · rw [pushed]
    simpa using mem
  · rw [pushed]
    exact Nat.lt_succ_of_le enough

theorem fits_of_fieldsCall (settled : compiler.SettledDefinition definition)
    (mem : definition.name ∈ known) (enough : known.length ≤ fuel') (empty : state.stack = [])
    (call : FieldsCall compiler (compiler.compileNamed fuel) definition.name definition.fields
      (state.enter definition.name) called next) : compiler.Fits known ⟨fuel', called, next⟩ := by
  have pushed : next.stack = [definition.name] := by
    rw [call.pushes, empty, List.nil_append]
  exact fits_of_pushed (call.fixed settled.settledFields) pushed mem enough

theorem fits_of_settled {requested : String} (settled : compiler.source.Settled requested)
    (enough : known.length < fuel) (built : Nat) :
    compiler.Fits known ⟨fuel, compiler.canonical requested, { built }⟩ where
  fixed := settled
  nodup := .nil
  subset := List.nil_subset _
  enough := enough

section

variable (regular : compiler.source.Regular) (lists : compiler.source.Lists known)

include regular lists

theorem Fits.conclusive (h : compiler.Fits known ⟨fuel, name, state⟩) :
    Conclusive (Run.result ((compiler.compileNamed fuel name).run state)) :=
  (NamedRun.of_compileNamed compiler fuel name state).conclusive regular lists h

theorem SettledDefinition.conclusive (h : compiler.SettledDefinition definition)
    (mem : definition.name ∈ known) (enough : known.length ≤ fuel) (empty : state.stack = []) :
    Conclusive
      (Run.result ((compiler.build (compiler.compileNamed fuel) definition).run state)) := by
  rw [run_build, compileFields_eq]
  have fields := FieldsRun.of_target (NamedRun.of_compileNamed compiler fuel) definition.name
    definition.fields (state.enter definition.name)
  refine conclusive_conclude (fields.conclusive ?_ h.settledFields (stack_enter empty _))
  intro called next run target fixed pushed
  exact target.conclusive regular lists (fits_of_pushed fixed pushed mem enough)

theorem SettledDefinition.safe (h : compiler.SettledDefinition definition)
    (mem : definition.name ∈ known) (enough : known.length ≤ fuel) (empty : state.stack = []) :
    compiler.SafeDefinition known.length fuel definition state := by
  constructor
  · rw [stack_enter empty]
    exact List.nodup_singleton _
  · rw [stack_enter empty]
    exact List.length_pos_of_mem mem
  · exact stack_build fuel definition state
  · intro called next call
    exact (fits_of_fieldsCall h mem enough empty call).safe regular lists

theorem SettledDefinition.run_eq (h : compiler.SettledDefinition definition)
    (enough : known.length < fuel) (empty : state.stack = []) :
    (compiler.build (compiler.compileNamed compiler.depth) definition).run state =
      (compiler.build (compiler.compileNamed fuel) definition).run state := by
  have named := compiler.source.lists_names
  apply run_build_congr
  intro called next call
  have own := fits_of_fieldsCall h List.mem_cons_self compiler.length_lt_depth empty call
  have other := fits_of_fieldsCall h List.mem_cons_self enough empty call
  exact own.run_eq regular (named.cons definition.name) (lists.cons definition.name) other

theorem SettledDefinition.compileDefinition_eq (h : compiler.SettledDefinition definition)
    (built : Nat) (enough : known.length < fuel) :
    compiler.compileDefinition built definition =
      .of ((compiler.build (compiler.compileNamed fuel) definition).run { built }) := by
  rw [compileDefinition, h.run_eq regular lists enough rfl]

theorem settledDefinition_of_load {requested : String}
    (load : (compiler.load requested).1 = .ok definition) :
    compiler.SettledDefinition definition ∧ definition.name ∈ known := by
  have holds := load_eq_ok_iff.1 load
  refine ⟨regular _ _ holds, ?_⟩
  rw [holds.name_eq]
  exact lists.mem_of_holds holds

theorem describe_eq (built : Nat) (requested : String) (enough : known.length < fuel) :
    (compiler.describe built requested).result =
      ((compiler.load requested).1.mapError .schema).bind fun definition =>
        (Outcome.of ((compiler.build (compiler.compileNamed fuel) definition).run
          { built })).result.map fun compiled =>
            definition.summary compiled.validator.typeName := by
  rw [describe]
  cases load : compiler.load requested with
  | mk result activities =>
    cases result with
    | error error => rfl
    | ok definition =>
      obtain ⟨settled, -⟩ := settledDefinition_of_load regular lists (congrArg Prod.fst load)
      simp only [settled.compileDefinition_eq regular lists built enough]
      rfl

end

section

variable (regular : compiler.source.Regular) {requested : String} {built : Nat}

include regular

theorem conclusive_compile (settled : compiler.source.Settled requested) (built : Nat) :
    Conclusive (compiler.compile built requested).result := by
  have named := compiler.source.lists_names
  rw [compile, Outcome.result_of]
  exact (fits_of_settled settled compiler.length_lt_depth built).conclusive regular named

theorem eq_schema_of_compile (settled : compiler.source.Settled requested) {failure : Failure}
    (failed : (compiler.compile built requested).result = .error failure) :
    ∃ error, failure = .schema error := by
  cases failure with
  | schema error => exact ⟨error, rfl⟩
  | endless name => exact absurd failed (conclusive_compile regular settled built name)

theorem SettledDefinition.conclusive_compileDefinition (h : compiler.SettledDefinition definition)
    (built : Nat) : Conclusive (compiler.compileDefinition built definition).result := by
  have named := compiler.source.lists_names
  rw [compileDefinition, Outcome.result_of]
  exact h.conclusive regular (named.cons definition.name) List.mem_cons_self
    compiler.length_lt_depth rfl

theorem conclusive_describe (built : Nat) (requested : String) :
    Conclusive (compiler.describe built requested).result := by
  have named := compiler.source.lists_names
  rw [describe]
  cases load : compiler.load requested with
  | mk result activities =>
    cases result with
    | error error => exact nofun
    | ok definition =>
      obtain ⟨settled, -⟩ := settledDefinition_of_load regular named (congrArg Prod.fst load)
      exact (settled.conclusive_compileDefinition regular built).map _

end

/-- Compiling terminates whatever the documents contain: it comes to a validator or to an error, the
same under any bound on the depth of more than the number of names with a document; no call under
such a bound is out of fuel, and no stack has a name twice or is longer than that number, or one
longer below a definition that is given as such. -/
theorem compile_terminates (regular : compiler.source.Regular)
    (lists : compiler.source.Lists known) (built : Nat) (enough : known.length < fuel) :
    (∀ requested, compiler.source.Settled requested →
      compiler.compile built requested =
        .of ((compiler.compileNamed fuel (compiler.canonical requested)).run { built }) ∧
      Conclusive (compiler.compile built requested).result ∧
      compiler.Safe known.length ⟨fuel, compiler.canonical requested, { built }⟩) ∧
    (∀ definition, compiler.SettledDefinition definition →
      compiler.compileDefinition built definition =
        .of ((compiler.build (compiler.compileNamed fuel) definition).run { built }) ∧
      Conclusive (compiler.compileDefinition built definition).result ∧
      compiler.SafeDefinition (known.length + 1) fuel definition { built }) ∧
    ∀ requested,
      Conclusive (compiler.describe built requested).result ∧
      (compiler.describe built requested).result =
        (((compiler.load requested).1.mapError .schema).bind fun definition =>
          (Outcome.of ((compiler.build (compiler.compileNamed fuel) definition).run
            { built })).result.map fun compiled => definition.summary compiled.validator.typeName) ∧
      ∀ definition, (compiler.load requested).1 = .ok definition →
        compiler.SafeDefinition known.length fuel definition { built } := by
  have named := compiler.source.lists_names
  refine ⟨?_, ?_, ?_⟩
  · intro requested settled
    have fits := fits_of_settled settled enough built
    have own := fits_of_settled settled compiler.length_lt_depth built
    exact ⟨congrArg Outcome.of (own.run_eq regular named lists fits),
      conclusive_compile regular settled built, fits.safe regular lists⟩
  · intro definition settled
    refine ⟨settled.compileDefinition_eq regular lists built enough,
      settled.conclusive_compileDefinition regular built, ?_⟩
    exact settled.safe regular (lists.cons definition.name) List.mem_cons_self enough rfl
  · intro requested
    refine ⟨conclusive_describe regular built requested,
      describe_eq regular lists built requested enough, ?_⟩
    intro definition load
    obtain ⟨settled, mem⟩ := settledDefinition_of_load regular lists load
    exact settled.safe regular lists mem (Nat.le_of_lt enough) rfl

theorem compile_terminates_lasso :
    lasso.source.Lists ["Top", "Left", "Right"] ∧
      lasso.compile 0 "Top" =
        .of ((lasso.compileNamed 4 (lasso.canonical "Top")).run { built := 0 }) ∧
      Conclusive (lasso.compile 0 "Top").result ∧
      lasso.Safe 3 ⟨4, lasso.canonical "Top", { built := 0 }⟩ ∧
      ∀ definition, (lasso.load "Right").1 = .ok definition →
        lasso.SafeDefinition 3 4 definition { built := 0 } := by
  have regular : lasso.source.Regular := Registry.regular_of_isRegular (by decide +kernel)
  have settled : lasso.source.Settled "Top" := by
    rw [Source.Settled]
    decide +kernel
  have lists : lasso.source.Lists ["Top", "Left", "Right"] := lasso.source.lists_names
  obtain ⟨compiles, -, describes⟩ := compile_terminates regular lists 0 (Nat.lt_succ_self 3)
  obtain ⟨same, ends, safe⟩ := compiles "Top" settled
  obtain ⟨-, -, loaded⟩ := describes "Right"
  exact ⟨lists, same, ends, safe, loaded⟩

end Compiler

end DocModel
