import DocModel.Proofs.Compile.Run
import DocModel.Proofs.Schema

namespace DocModel

namespace Compiler

variable {compiler : Compiler} {fuel : Nat} {name owner : String} {state : CompileState}

/-- The validator is that of a definition, with the definitions that the source answers its
embedded names with. -/
structure Compiles (compiler : Compiler) (schema : Schema) (validator : Validator) : Prop where
  resolves : schema.Resolves compiler.source
  validator_eq : validator = schema.validator compiler.rejectsUnknown

/-- Every validator in the table is that of the definition whose name it stands under. -/
def Resolved (compiler : Compiler) (state : CompileState) : Prop :=
  ∀ name compiled, state.finished.lookup name = some compiled →
    ∃ schema : Schema, compiler.source.Holds name schema.definition ∧
      compiler.Compiles schema compiled.validator

/-- What a call for a name keeps and gives. -/
def NamedResolved (compiler : Compiler) (name : String) (state : CompileState)
    (run : Run Compiled) : Prop :=
  compiler.Resolved state → compiler.Resolved run.state ∧
    ∀ compiled next, run = .ok compiled next →
      ∃ (schema : Schema) (strips : Nat),
        compiler.source.Holds (compiler.source.canonical^[strips] name) schema.definition ∧
        compiler.Compiles schema compiled.validator

theorem FieldsRun.resolved
    (targets : ∀ name state run, NamedRun compiler fuel name state run →
      compiler.NamedResolved name state run)
    {fields : List (String × Field)} {run : Run (List (FieldRule × List Identity))}
    (h : FieldsRun compiler fuel owner fields state run) (resolved : compiler.Resolved state) :
    compiler.Resolved run.state ∧ ∀ rules next, run = .ok rules next →
      ∃ declared : List SchemaField, declared.map SchemaField.declared = fields ∧
        (∀ field ∈ declared, field.Resolved compiler.source) ∧
        rules.map (·.1) = declared.map (SchemaField.rule compiler.rejectsUnknown) := by
  induction fields generalizing state run with
  | nil =>
    cases h
    refine ⟨resolved, ?_⟩
    intro rules next same
    cases same
    exact ⟨[], rfl, by simp, rfl⟩
  | cons first fields ih =>
    cases h with
    | @plain _ _ name field _ _ run plain rest =>
      obtain ⟨after, others⟩ := ih rest resolved
      rw [Run.state_cons]
      refine ⟨after, ?_⟩
      intro rules next same
      obtain ⟨_, rfl, rfl⟩ := Run.cons_eq_ok.1 same
      obtain ⟨declared, rfl, each, same⟩ := others _ _ rfl
      refine ⟨.plain name field :: declared, rfl, ?_, ?_⟩
      · exact List.forall_mem_cons.2 ⟨plain, each⟩
      · rw [List.map_cons, List.map_cons, same, SchemaField.rule]
    | @embedded _ _ name field _ _ embedding model nested middle run embeds target rest =>
      obtain ⟨between, answered⟩ := targets _ _ _ target resolved
      obtain ⟨after, others⟩ := ih rest between
      rw [Run.state_cons]
      refine ⟨after, ?_⟩
      intro rules next same
      obtain ⟨_, rfl, rfl⟩ := Run.cons_eq_ok.1 same
      obtain ⟨declared, rfl, each, same⟩ := others _ _ rfl
      obtain ⟨schema, strips, holds, compiles⟩ := answered _ _ rfl
      refine ⟨.embedded name field embedding schema :: declared, rfl, ?_, ?_⟩
      · refine List.forall_mem_cons.2 ⟨⟨⟨model, embeds, strips, holds⟩, compiles.resolves⟩, each⟩
      · rw [List.map_cons, List.map_cons, same, SchemaField.rule, compiles.validator_eq]
    | failed embeds target =>
      exact ⟨(targets _ _ _ target resolved).1, by simp⟩

/-- What the fields of a definition are compiled to makes up what the definition is compiled to. -/
theorem FieldsRun.compiles
    (targets : ∀ name state run, NamedRun compiler fuel name state run →
      compiler.NamedResolved name state run)
    {definition : Definition} {rules : List (FieldRule × List Identity)} {next : CompileState}
    (h : FieldsRun compiler fuel definition.name definition.fields state (.ok rules next))
    (resolved : compiler.Resolved state) :
    ∃ schema : Schema, schema.definition = definition ∧
      compiler.Compiles schema (compiler.assemble definition rules next).validator := by
  obtain ⟨-, declared⟩ := h.resolved targets resolved
  obtain ⟨declared, fields, each, same⟩ := declared _ _ rfl
  refine ⟨.mk definition declared, rfl, Schema.Resolves.of_fields fields each, ?_⟩
  rw [Schema.validator, ← same]
  rfl

theorem NamedRun.resolved {run : Run Compiled} (h : NamedRun compiler fuel name state run) :
    compiler.NamedResolved name state run := by
  induction fuel generalizing name state run with
  | zero =>
    cases h
    exact fun resolved => ⟨resolved, by simp⟩
  | succ fuel ih =>
    have targets : ∀ name state run, NamedRun compiler fuel name state run →
        compiler.NamedResolved name state run := fun _ _ _ => ih
    intro resolved
    cases h with
    | shared finished =>
      refine ⟨resolved, ?_⟩
      intro compiled next same
      cases same
      obtain ⟨schema, holds, compiles⟩ := resolved _ _ finished
      exact ⟨schema, 0, holds, compiles⟩
    | cyclic fresh open_ => exact ⟨resolved, by simp⟩
    | unloadable fresh closed load => exact ⟨resolved, by simp⟩
    | @loaded _ _ _ definition activities run fresh closed load fields =>
      have holds : compiler.source.Holds (compiler.source.canonical^[2] name) definition :=
        load_eq_ok_iff.1 (congrArg Prod.fst load)
      obtain ⟨after, -⟩ := fields.resolved targets resolved
      cases run with
      | error error next => exact ⟨after, by simp [conclude]⟩
      | ok rules next =>
        obtain ⟨schema, rfl, compiles⟩ := fields.compiles targets resolved
        refine ⟨?_, ?_⟩
        · intro other compiled found
          rw [state_conclude_ok, CompileState.lookup_complete] at found
          split at found
          · cases found
            rw [‹other = schema.definition.name›, holds.name_eq]
            exact ⟨schema, holds, compiles⟩
          · exact after _ _ found
        · intro compiled next same
          cases same
          exact ⟨schema, 2, holds, compiles⟩

theorem NamedRun.loaded_of_fresh {compiled : Compiled} {next : CompileState}
    (h : NamedRun compiler fuel name state (.ok compiled next))
    (fresh : state.finished.lookup name = none) (resolved : compiler.Resolved state) :
    ∃ schema : Schema, (compiler.load name).1 = .ok schema.definition ∧
      compiler.Compiles schema compiled.validator := by
  generalize same : (.ok compiled next : Run Compiled) = run at h
  cases h with
  | exhausted => cases same
  | shared finished =>
    rw [fresh] at finished
    cases finished
  | cyclic fresh open_ => cases same
  | unloadable fresh closed load => cases same
  | @loaded _ _ _ definition activities run fresh closed load fields =>
    cases run with
    | error error next => cases same
    | ok rules next =>
      cases same
      obtain ⟨schema, rfl, compiles⟩ := fields.compiles (fun _ _ _ => NamedRun.resolved) resolved
      exact ⟨schema, congrArg Prod.fst load, compiles⟩

theorem resolved_nil (compiler : Compiler) (built : Nat) : compiler.Resolved { built } := by
  intro name compiled found
  cases found

variable {built : Nat} {compiled : Compiled}

theorem compiles_of_compile {requested : String}
    (h : (compiler.compile built requested).result = .ok compiled) :
    ∃ schema : Schema,
      (compiler.load (compiler.canonical requested)).1 = .ok schema.definition ∧
      compiler.Compiles schema compiled.validator := by
  have run := NamedRun.of_compileNamed compiler compiler.depth
    (compiler.canonical requested) { built }
  rw [compile] at h
  cases result : (compiler.compileNamed compiler.depth (compiler.canonical requested)).run
    { built } with
  | error error next =>
    rw [result] at h
    cases h
  | ok value next =>
    rw [result] at h run
    cases h
    exact run.loaded_of_fresh rfl (compiler.resolved_nil built)

theorem compiles_of_compileDefinition {definition : Definition}
    (h : (compiler.compileDefinition built definition).result = .ok compiled) :
    ∃ schema : Schema, schema.definition = definition ∧
      compiler.Compiles schema compiled.validator := by
  have fields := FieldsRun.of_target (NamedRun.of_compileNamed compiler compiler.depth)
    definition.name definition.fields (({ built } : CompileState).enter definition.name)
  rw [compileDefinition, run_build, compileFields_eq] at h
  cases result : (definition.fields.mapM (compiler.compileField
    (compiler.compileNamed compiler.depth) definition.name)).run
      (({ built } : CompileState).enter definition.name) with
  | error error next =>
    rw [result] at h
    cases h
  | ok rules next =>
    rw [result] at h fields
    cases h
    exact fields.compiles (fun _ _ _ => NamedRun.resolved) (compiler.resolved_nil built)

/-- The validators that a compiler gives for the names and the definitions it is asked for. -/
inductive Gives (compiler : Compiler) : Validator → Prop
  | compile {built : Nat} {requested : String} {compiled : Compiled}
    (result : (compiler.compile built requested).result = .ok compiled) :
    Gives compiler compiled.validator
  | compileDefinition {built : Nat} {definition : Definition} {compiled : Compiled}
    (result : (compiler.compileDefinition built definition).result = .ok compiled) :
    Gives compiler compiled.validator

theorem Gives.exists_schema {validator : Validator} (h : compiler.Gives validator) :
    ∃ schema, compiler.Compiles schema validator := by
  cases h with
  | compile result =>
    obtain ⟨schema, -, compiles⟩ := compiles_of_compile result
    exact ⟨schema, compiles⟩
  | compileDefinition result =>
    obtain ⟨schema, -, compiles⟩ := compiles_of_compileDefinition result
    exact ⟨schema, compiles⟩

theorem Gives.orderly {validator : Validator} (h : compiler.Gives validator) :
    validator.Orderly := by
  obtain ⟨schema, compiles⟩ := h.exists_schema
  rw [compiles.validator_eq]
  exact compiles.resolves.orderly

theorem exists_gives_of_any {built : Nat} {requested : String} {test : Compiled → Bool}
    (h : (compiler.compile built requested).result.toOption.any test) :
    ∃ compiled, compiler.Gives compiled.validator ∧ test compiled := by
  obtain ⟨compiled, result, tested⟩ := exists_of_any_toOption h
  exact ⟨compiled, .compile result, tested⟩

/-- A compiled validator passes the documents that conform to its definition, and no others. The
definition is the one that was loaded or given; what it embeds is what the source answered. -/
theorem accepts_iff_conforms (compiler : Compiler) (built : Nat) :
    (∀ requested compiled, (compiler.compile built requested).result = .ok compiled →
      ∃ schema : Schema,
        (compiler.load (compiler.canonical requested)).1 = .ok schema.definition ∧
        schema.Resolves compiler.source ∧
        ∀ document, (∃ checked, compiled.validator.check [] document = .ok checked) ↔
          Conforms compiler.rejectsUnknown schema document) ∧
    ∀ definition compiled, (compiler.compileDefinition built definition).result = .ok compiled →
      ∃ schema : Schema,
        schema.definition = definition ∧
        schema.Resolves compiler.source ∧
        ∀ document, (∃ checked, compiled.validator.check [] document = .ok checked) ↔
          Conforms compiler.rejectsUnknown schema document := by
  constructor
  · intro requested compiled result
    obtain ⟨schema, load, compiles⟩ := compiles_of_compile result
    rw [compiles.validator_eq]
    exact ⟨schema, load, compiles.resolves, compiles.resolves.check_iff []⟩
  · intro definition compiled result
    obtain ⟨schema, same, compiles⟩ := compiles_of_compileDefinition result
    rw [compiles.validator_eq]
    exact ⟨schema, same, compiles.resolves, compiles.resolves.check_iff []⟩

/-- Orders of a limited amount, each with a list of places. -/
def orders : Compiler where
  source := Registry.source ⟨[
    ("Order", .obj [
      ("properties", .obj [
        ("amount", .obj [("type", .str "int"), ("required", .bool true), ("max", .num (.int 9))]),
        ("marks", .obj [("type", .str "array"), ("choices", .arr [.str "new", .str "urgent"])])]),
      ("relations", .obj [
        ("places", .obj [("type", .str "embedsMany"), ("model", .str "Place")])])]),
    ("Place", .obj [("properties", .obj [
      ("at", .obj [("type", .str "GeoPoint"), ("required", .bool true)])])])]⟩

/-- An order, which is urgent if so marked. -/
def order (amount : Int) : Json :=
  .obj [("marks", .arr [.str "urgent"]), ("amount", .num (.int amount)),
    ("places", .arr [.obj [("at", .obj [("lat", .num (.int 1)), ("lng", .num (.int 2))])]])]

theorem accepts_iff_conforms_orders :
    ∃ schema : Schema, (orders.load "Order").1 = .ok schema.definition ∧
      Conforms true schema (order 9) ∧ ¬ Conforms true schema (order 10) := by
  have checked : (orders.compile 0 "Order").result.toOption.any (fun compiled =>
      (compiled.validator.check [] (order 9)).isOk &&
        !(compiled.validator.check [] (order 10)).isOk) := by
    decide +kernel
  have canonical : orders.canonical "Order" = "Order" := by decide +kernel
  cases result : (orders.compile 0 "Order").result with
  | error error =>
    rw [result] at checked
    cases checked
  | ok compiled =>
    obtain ⟨schema, load, -, accepts⟩ := (accepts_iff_conforms orders 0).1 "Order" compiled result
    rw [canonical] at load
    rw [result] at checked
    obtain ⟨passed, failed⟩ := Bool.and_eq_true_iff.1 checked
    refine ⟨schema, load, (accepts _).1 (isOk_iff.1 passed), fun conforms => ?_⟩
    rw [isOk_iff.2 ((accepts _).2 conforms)] at failed
    cases failed

end Compiler

end DocModel
