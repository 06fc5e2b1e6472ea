import DocModel.Proofs.Field
import DocModel.Proofs.Lists

namespace DocModel

namespace CompileState

def noteAll (activities : List Activity) (state : CompileState) : CompileState :=
  { state with activities := state.activities ++ activities }

/-- Begins a definition: it stands on the stack from now on. -/
def enter (name : String) (state : CompileState) : CompileState :=
  (state.note (.compiling name)).push name

/-- Gives a definition up. -/
def abandon (name : String) (failure : Failure) (state : CompileState) : CompileState :=
  state.pop.note (.abandoned name failure.code)

/-- Records the validator of a definition, which leaves the stack. -/
def complete (name : String) (compiled : Compiled) (fields : Nat) (state : CompileState) :
    CompileState :=
  (state.pop.finish name compiled).note (.compiled name fields)

theorem lookup_complete (state : CompileState) (name other : String) (compiled : Compiled)
    (fields : Nat) :
    (state.complete name compiled fields).finished.lookup other =
      if other = name then some compiled else state.finished.lookup other := by
  rw [complete, note, finish, lookup_cons_eq_ite]
  by_cases same : other = name
  · rw [if_pos same, if_pos same]
  · rw [if_neg same, if_neg same, lookup_filter_ne same]
    rfl

end CompileState

/-- It was not the bound on the depth that ended a call: it has a value, or fails with an error. -/
def Conclusive {α : Type} (result : Except Failure α) : Prop :=
  ∀ name, result ≠ .error (.endless name)

theorem Conclusive.map {α β : Type} {result : Except Failure α} (h : Conclusive result)
    (f : α → β) : Conclusive (result.map f) :=
  fun name failed => h name (map_eq_error.1 failed)

abbrev Run (α : Type) := EStateM.Result Failure CompileState α

namespace Run

variable {α : Type}

/-- The state that a run leaves, be it with a value or with an error. -/
def state : Run α → CompileState
  | .ok _ state | .error _ state => state

/-- What a run gives, whatever state it leaves. -/
def result : Run α → Except Failure α
  | .ok value _ => .ok value
  | .error failure _ => .error failure

/-- Puts a rule before those of the fields that follow. -/
def cons (rule : α) : Run (List α) → Run (List α)
  | .ok rules state => .ok (rule :: rules) state
  | .error failure state => .error failure state

@[simp] theorem state_cons (rule : α) (run : Run (List α)) : (run.cons rule).state = run.state := by
  cases run <;> rfl

@[simp] theorem result_cons (rule : α) (run : Run (List α)) :
    (run.cons rule).result = run.result.map (rule :: ·) := by
  cases run <;> rfl

theorem cons_eq_ok {rule : α} {run : Run (List α)} {rules : List α} {state : CompileState} :
    run.cons rule = .ok rules state ↔ ∃ rest, run = .ok rest state ∧ rules = rule :: rest := by
  cases run with
  | ok rest next =>
    constructor
    · intro h
      cases h
      exact ⟨rest, rfl, rfl⟩
    · intro consed
      obtain ⟨_, h, rfl⟩ := consed
      cases h
      rfl
  | error error next => simp [cons]

theorem result_eq_ok {run : Run α} {value : α} :
    run.result = .ok value ↔ ∃ state, run = .ok value state := by
  cases run <;> simp [result]

theorem result_eq_error {run : Run α} {failure : Failure} :
    run.result = .error failure ↔ ∃ state, run = .error failure state := by
  cases run <;> simp [result]

end Run

theorem Outcome.result_of {α : Type} (run : Run α) : (Outcome.of run).result = run.result := by
  cases run <;> rfl

namespace Compiler

/-- The validator of a definition whose fields are compiled, as the next one to be built. -/
def assemble (compiler : Compiler) (definition : Definition)
    (fields : List (FieldRule × List Identity)) (state : CompileState) : Compiled :=
  ⟨.mk definition.name compiler.rejectsUnknown (fields.map (·.1)),
    .mk state.built (fields.flatMap (·.2))⟩

/-- Ends a definition with what its fields came to. -/
def conclude (compiler : Compiler) (definition : Definition) :
    Run (List (FieldRule × List Identity)) → Run Compiled
  | .ok fields state =>
    let compiled := compiler.assemble definition fields state
    .ok compiled (state.complete definition.name compiled fields.length)
  | .error failure state => .error failure (state.abandon definition.name failure)

@[simp] theorem state_conclude_ok (compiler : Compiler) (definition : Definition)
    (fields : List (FieldRule × List Identity)) (state : CompileState) :
    (compiler.conclude definition (.ok fields state)).state = state.complete definition.name
      (compiler.assemble definition fields state) fields.length := rfl

mutual

/-- What compiling a name comes to in a state, when so many definitions may still be nested. -/
inductive NamedRun (compiler : Compiler) : Nat → String → CompileState → Run Compiled → Prop
  | exhausted {name state} :
    NamedRun compiler 0 name state (.error (.endless name) state)
  | shared {fuel name state compiled} (finished : state.finished.lookup name = some compiled) :
    NamedRun compiler (fuel + 1) name state (.ok compiled state)
  | cyclic {fuel name state} (fresh : state.finished.lookup name = none)
    (open_ : name ∈ state.stack) :
    NamedRun compiler (fuel + 1) name state
      (.error (.schema (.cyclicDefinition state.stack name)) state)
  | unloadable {fuel name state error activities} (fresh : state.finished.lookup name = none)
    (closed : name ∉ state.stack) (load : compiler.load name = (.error error, activities)) :
    NamedRun compiler (fuel + 1) name state (.error (.schema error) (state.noteAll activities))
  | loaded {fuel name state definition activities run} (fresh : state.finished.lookup name = none)
    (closed : name ∉ state.stack) (load : compiler.load name = (.ok definition, activities))
    (fields : FieldsRun compiler fuel definition.name definition.fields
      ((state.noteAll activities).enter definition.name) run) :
    NamedRun compiler (fuel + 1) name state (compiler.conclude definition run)

/-- What compiling some fields of a definition comes to; the first failing one stops. -/
inductive FieldsRun (compiler : Compiler) :
    Nat → String → List (String × Field) → CompileState →
      Run (List (FieldRule × List Identity)) → Prop
  | nil {fuel owner state} : FieldsRun compiler fuel owner [] state (.ok [] state)
  | plain {fuel owner name field fields state run} (plain : field.embeds? = none)
    (rest : FieldsRun compiler fuel owner fields state run) :
    FieldsRun compiler fuel owner ((name, field) :: fields) state
      (run.cons (.value (field.head name) field.checks, []))
  | embedded {fuel owner name field fields state embedding declared nested next run}
    (embeds : field.embeds? = some (embedding, declared))
    (target : NamedRun compiler fuel (compiler.canonical declared) state (.ok nested next))
    (rest : FieldsRun compiler fuel owner fields next run) :
    FieldsRun compiler fuel owner ((name, field) :: fields) state
      (run.cons (.embedded (field.head name) embedding nested.validator, [nested.identity]))
  | failed {fuel owner name field fields state embedding declared failure next}
    (embeds : field.embeds? = some (embedding, declared))
    (target : NamedRun compiler fuel (compiler.canonical declared) state (.error failure next)) :
    FieldsRun compiler fuel owner ((name, field) :: fields) state
      (.error (field.blame owner name (compiler.canonical declared) failure) next)

end

/-- Compiles a declared field. -/
def compileField (compiler : Compiler) (target : String → Compiling Compiled) (owner : String) :
    String × Field → Compiling (FieldRule × List Identity)
  | (name, .property p) => compiler.compileProperty target owner (name, p)
  | (name, .relation r) => compiler.compileRelation target (name, r)

variable (compiler : Compiler) (target : String → Compiling Compiled)

theorem compileFields_eq (definition : Definition) :
    compiler.compileFields target definition =
      definition.fields.mapM (compiler.compileField target definition.name) := by
  simp only [compileFields, Definition.fields, List.mapM_append, List.mapM_map]
  rfl

theorem run_compileField_plain {field : Field} (plain : field.embeds? = none)
    (owner name : String) (state : CompileState) :
    (compiler.compileField target owner (name, field)).run state =
      .ok (.value (field.head name) field.checks, []) state := by
  cases field with
  | property p =>
    cases h : p.type with
    | reference => simp [Field.embeds?, h] at plain
    | primitive => simp [compileField, compileProperty, h, Field.head, Field.checks]
    | any => simp [compileField, compileProperty, h, Field.head, Field.checks]
  | relation r =>
    cases h : r.kind with
    | embeds => simp [Field.embeds?, h] at plain
    | belongsTo => simp [compileField, compileRelation, h, Field.head, Field.checks]
    | hasOne => simp [compileField, compileRelation, h, Field.head, Field.checks]
    | hasMany => simp [compileField, compileRelation, h, Field.head, Field.checks]

theorem run_tryCatch {α : Type} (action : Compiling α) (handle : Failure → Compiling α)
    (state : CompileState) :
    (tryCatch action handle).run state =
      match action.run state with
      | .ok value next => .ok value next
      | .error failure next => (handle failure).run next := by
  change EStateM.tryCatch action handle state = _
  unfold EStateM.tryCatch EStateM.run
  cases action state <;> rfl

theorem run_compileField_embedded {field : Field} {embedding : Embedding} {declared : String}
    (embeds : field.embeds? = some (embedding, declared)) (owner name : String)
    (state : CompileState) :
    (compiler.compileField target owner (name, field)).run state =
      match (target (compiler.canonical declared)).run state with
      | .ok nested next =>
        .ok (.embedded (field.head name) embedding nested.validator, [nested.identity]) next
      | .error failure next =>
        .error (field.blame owner name (compiler.canonical declared) failure) next := by
  cases field with
  | property p =>
    cases h : p.type with
    | reference =>
      simp only [Field.embeds?, h, Option.some.injEq, Prod.mk.injEq] at embeds
      obtain ⟨rfl, rfl⟩ := embeds
      simp only [compileField, compileProperty, h, Field.head, Field.blame, EStateM.run_bind,
        run_tryCatch]
      cases (target (compiler.canonical _)).run state <;> rfl
    | primitive => simp [Field.embeds?, h] at embeds
    | any => simp [Field.embeds?, h] at embeds
  | relation r =>
    cases h : r.kind with
    | embeds =>
      simp only [Field.embeds?, h, Option.some.injEq, Prod.mk.injEq] at embeds
      obtain ⟨rfl, rfl⟩ := embeds
      simp only [compileField, compileRelation, h, Field.head, Field.blame, EStateM.run_bind]
      cases (target (compiler.canonical _)).run state <;> rfl
    | belongsTo => simp [Field.embeds?, h] at embeds
    | hasOne => simp [Field.embeds?, h] at embeds
    | hasMany => simp [Field.embeds?, h] at embeds

/-- What the call for its target keeps holds when a field is compiled. -/
theorem held_of_compileField {P : CompileState → Prop} {owner : String} {field : String × Field}
    {rule : FieldRule × List Identity} {state next : CompileState}
    (keeps : ∀ embedding declared, field.2.embeds? = some (embedding, declared) →
      ∀ state, P state → P (Run.state ((target (compiler.canonical declared)).run state)))
    (run : (compiler.compileField target owner field).run state = .ok rule next) (held : P state) :
    P next := by
  obtain ⟨name, field⟩ := field
  cases embeds : field.embeds? with
  | none =>
    rw [run_compileField_plain compiler target embeds] at run
    cases run
    exact held
  | some embedded =>
    obtain ⟨embedding, declared⟩ := embedded
    rw [run_compileField_embedded compiler target embeds] at run
    have kept := keeps embedding declared embeds state held
    cases nested : (target (compiler.canonical declared)).run state with
    | ok compiled after =>
      rw [nested] at run kept
      cases run
      exact kept
    | error error after =>
      rw [nested] at run
      cases run

theorem run_build (definition : Definition) (state : CompileState) :
    (compiler.build target definition).run state =
      compiler.conclude definition
        ((compiler.compileFields target definition).run (state.enter definition.name)) := by
  simp only [build, EStateM.run_bind, EStateM.run_modify, EStateM.run_get, run_tryCatch,
    CompileState.enter]
  cases (compiler.compileFields target definition).run _ <;> rfl

theorem run_loadDefinition (name : String) (state : CompileState) :
    (compiler.loadDefinition name).run state =
      match compiler.load name with
      | (.ok definition, activities) => .ok definition (state.noteAll activities)
      | (.error error, activities) => .error (.schema error) (state.noteAll activities) := by
  unfold loadDefinition
  rcases compiler.load name with ⟨_ | _, _⟩ <;> rfl

variable {compiler} {target}

theorem run_mapM_cons {α β : Type} (action : α → Compiling β) (first : α) (rest : List α)
    (state : CompileState) :
    ((first :: rest).mapM action).run state =
      match (action first).run state with
      | .ok value next => Run.cons value ((rest.mapM action).run next)
      | .error error next => .error error next := by
  simp only [List.mapM_cons, EStateM.run_bind]
  cases (action first).run state with
  | error error next => rfl
  | ok value next =>
    simp only
    cases (rest.mapM action).run next <;> rfl

theorem FieldsRun.of_target {fuel : Nat}
    (sound : ∀ name state, NamedRun compiler fuel name state ((target name).run state))
    (owner : String) (fields : List (String × Field)) (state : CompileState) :
    FieldsRun compiler fuel owner fields state
      ((fields.mapM (compiler.compileField target owner)).run state) := by
  induction fields generalizing state with
  | nil => exact .nil
  | cons first fields ih =>
    obtain ⟨name, field⟩ := first
    rw [run_mapM_cons]
    cases embeds : field.embeds? with
    | none =>
      rw [run_compileField_plain compiler target embeds]
      exact .plain embeds (ih state)
    | some embedded =>
      obtain ⟨embedding, declared⟩ := embedded
      rw [run_compileField_embedded compiler target embeds]
      have run := sound (compiler.canonical declared) state
      cases h : (target (compiler.canonical declared)).run state with
      | error error next =>
        rw [h] at run
        exact .failed embeds run
      | ok nested next =>
        rw [h] at run
        exact .embedded embeds run (ih next)

section

variable {name : String} {state : CompileState}

theorem run_compileNamed_shared {compiled : Compiled}
    (finished : state.finished.lookup name = some compiled) (fuel : Nat) :
    (compiler.compileNamed (fuel + 1) name).run state = .ok compiled state := by
  simp only [compileNamed, EStateM.run_bind, EStateM.run_get, finished]
  rfl

theorem run_compileNamed_cyclic (fresh : state.finished.lookup name = none)
    (open_ : name ∈ state.stack) (fuel : Nat) :
    (compiler.compileNamed (fuel + 1) name).run state =
      .error (.schema (.cyclicDefinition state.stack name)) state := by
  simp only [compileNamed, EStateM.run_bind, EStateM.run_get, fresh, List.contains_iff_mem, open_,
    if_true]
  rfl

theorem run_compileNamed_fresh (fresh : state.finished.lookup name = none)
    (closed : name ∉ state.stack) (fuel : Nat) :
    (compiler.compileNamed (fuel + 1) name).run state =
      match compiler.load name with
      | (.error error, activities) => .error (.schema error) (state.noteAll activities)
      | (.ok definition, activities) =>
        (compiler.build (compiler.compileNamed fuel) definition).run
          (state.noteAll activities) := by
  simp only [compileNamed, EStateM.run_bind, EStateM.run_get, fresh, List.contains_iff_mem, closed,
    if_false, run_loadDefinition]
  rcases compiler.load name with ⟨_ | _, _⟩ <;> rfl

end

theorem NamedRun.of_compileNamed (compiler : Compiler) (fuel : Nat) (name : String)
    (state : CompileState) :
    NamedRun compiler fuel name state ((compiler.compileNamed fuel name).run state) := by
  induction fuel generalizing name state with
  | zero => exact .exhausted
  | succ fuel ih =>
    cases finished : state.finished.lookup name with
    | some compiled =>
      rw [run_compileNamed_shared finished]
      exact .shared finished
    | none =>
      by_cases open_ : name ∈ state.stack
      · rw [run_compileNamed_cyclic finished open_]
        exact .cyclic finished open_
      · rw [run_compileNamed_fresh finished open_]
        cases load : compiler.load name with
        | mk result activities =>
          cases result with
          | error error => exact .unloadable finished open_ load
          | ok definition =>
            simp only [run_build, compileFields_eq]
            exact .loaded finished open_ load (.of_target ih _ _ _)

end Compiler

end DocModel
