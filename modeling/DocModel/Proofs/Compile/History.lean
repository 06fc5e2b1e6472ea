import DocModel.Proofs.Compile.Run

namespace DocModel

variable {α β : Type}

namespace CompileState

/-- The same state when something else happened before. -/
def after (prior : List Activity) (state : CompileState) : CompileState :=
  { state with activities := prior ++ state.activities }

variable (prior : List Activity) (state : CompileState) (name : String)

theorem noteAll_after (activities : List Activity) :
    (state.after prior).noteAll activities = (state.noteAll activities).after prior := by
  simp [noteAll, after]

theorem enter_after : (state.after prior).enter name = (state.enter name).after prior := by
  simp [enter, note, push, after]

theorem abandon_after (error : Failure) :
    (state.after prior).abandon name error = (state.abandon name error).after prior := by
  simp [abandon, note, pop, after]

theorem complete_after (compiled : Compiled) (fields : Nat) :
    (state.after prior).complete name compiled fields =
      (state.complete name compiled fields).after prior := by
  simp [complete, note, finish, pop, after]

end CompileState

namespace Run

/-- The same run when something else happened before. -/
def after (prior : List Activity) : Run α → Run α
  | .ok value state => .ok value (state.after prior)
  | .error error state => .error error (state.after prior)

end Run

/-- What an action does is the same whatever happened before. -/
def Compiling.Forgetful (action : Compiling α) : Prop :=
  ∀ prior state, action.run (state.after prior) = Run.after prior (action.run state)

theorem Compiling.Forgetful.mapM {action : α → Compiling β}
    (forgetful : ∀ item, (action item).Forgetful) (items : List α) :
    Compiling.Forgetful (items.mapM action) := by
  intro prior state
  induction items generalizing state with
  | nil => rfl
  | cons item items ih =>
    rw [Compiler.run_mapM_cons, Compiler.run_mapM_cons, forgetful]
    cases (action item).run state with
    | error error next => rfl
    | ok value next =>
      simp only [Run.after, ih]
      cases (items.mapM action).run next <;> rfl

/-- The same outcome when something else happened before. -/
def Outcome.after (prior : List Activity) (outcome : Outcome α) : Outcome α :=
  { outcome with activities := prior ++ outcome.activities }

theorem Outcome.of_after (prior : List Activity) (run : Run α) :
    Outcome.of (run.after prior) = (Outcome.of run).after prior := by
  cases run <;> rfl

namespace Compiler

variable {compiler : Compiler} {target : String → Compiling Compiled}

theorem compileField_forgetful (forgetful : ∀ name, (target name).Forgetful) (owner : String)
    (field : String × Field) : (compiler.compileField target owner field).Forgetful := by
  obtain ⟨name, field⟩ := field
  intro prior state
  cases embeds : field.embeds? with
  | none =>
    rw [run_compileField_plain _ _ embeds, run_compileField_plain _ _ embeds]
    rfl
  | some embedded =>
    obtain ⟨embedding, declared⟩ := embedded
    rw [run_compileField_embedded _ _ embeds, run_compileField_embedded _ _ embeds, forgetful]
    cases (target (compiler.canonical declared)).run state <;> rfl

theorem build_forgetful (forgetful : ∀ name, (target name).Forgetful) (definition : Definition) :
    (compiler.build target definition).Forgetful := by
  intro prior state
  have fields : (definition.fields.mapM
      (compiler.compileField target definition.name)).Forgetful :=
    .mapM (compileField_forgetful forgetful definition.name) definition.fields
  rw [run_build, run_build, compileFields_eq, CompileState.enter_after, fields]
  cases (definition.fields.mapM (compiler.compileField target definition.name)).run _ with
  | ok rules next =>
    have completed := next.complete_after prior definition.name
      (compiler.assemble definition rules next) rules.length
    exact congrArg (EStateM.Result.ok _) completed
  | error error next =>
    exact congrArg (EStateM.Result.error error) (next.abandon_after prior definition.name error)

theorem compileNamed_forgetful (fuel : Nat) (name : String) :
    (compiler.compileNamed fuel name).Forgetful := by
  induction fuel generalizing name with
  | zero => exact fun prior state => rfl
  | succ fuel ih =>
    intro prior state
    cases finished : state.finished.lookup name with
    | some compiled =>
      have finished' : (state.after prior).finished.lookup name = some compiled := finished
      rw [run_compileNamed_shared finished, run_compileNamed_shared finished']
      rfl
    | none =>
      have fresh : (state.after prior).finished.lookup name = none := finished
      by_cases open_ : name ∈ state.stack
      · have open' : name ∈ (state.after prior).stack := open_
        rw [run_compileNamed_cyclic finished open_, run_compileNamed_cyclic fresh open']
        rfl
      · have closed : name ∉ (state.after prior).stack := open_
        rw [run_compileNamed_fresh finished open_, run_compileNamed_fresh fresh closed]
        rcases compiler.load name with ⟨error | definition, activities⟩
        · exact congrArg (EStateM.Result.error (Failure.schema error))
            (state.noteAll_after prior activities)
        · simp only [CompileState.noteAll_after]
          exact build_forgetful ih definition prior _

/-- What comes of a definition that was loaded, or of the error with which loading ended. -/
def compileLoaded (compiler : Compiler) (fuel built : Nat) :
    Except SchemaError Definition × List Activity → Outcome Compiled
  | (.error error, activities) => ⟨.error (.schema error), built, activities⟩
  | (.ok definition, activities) =>
    (Outcome.of ((compiler.build (compiler.compileNamed fuel) definition).run { built })).after
      activities

theorem compile_eq_compileLoaded (compiler : Compiler) (built : Nat) (requested : String) :
    compiler.compile built requested = compiler.compileLoaded (compiler.depth - 1) built
      (compiler.load (compiler.canonical requested)) := by
  have deep : compiler.depth = compiler.depth - 1 + 1 :=
    (Nat.sub_add_cancel (Nat.mul_pos (Nat.succ_pos _) (Nat.succ_pos _))).symm
  rw [compile, deep, run_compileNamed_fresh rfl List.not_mem_nil, Nat.add_sub_cancel]
  rcases compiler.load (compiler.canonical requested) with ⟨error | definition, activities⟩
  · rfl
  · have first : ({ built } : CompileState).noteAll activities =
        ({ built } : CompileState).after activities := by
      simp [CompileState.noteAll, CompileState.after]
    simp only [first]
    rw [build_forgetful (fun name => compileNamed_forgetful _ name) definition, Outcome.of_after]
    rfl

end Compiler

end DocModel
