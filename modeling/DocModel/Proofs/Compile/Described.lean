import DocModel.Cli
import DocModel.Proofs.Compile.History
import DocModel.Proofs.Compile.Resolved
import DocModel.Proofs.Compile.Terminates
import DocModel.Proofs.Validator.Completes

namespace DocModel

namespace Json

/-- The value of a member of an object. -/
def member? (key : String) : Json → Option Json
  | .obj members => Members.get? members key
  | _ => none

/-- The entries of the field list of a summary have these names, in this order. -/
def ListsFields (summary : Json) (names : List String) : Prop :=
  ∃ entries, summary.member? "fields" = some (.arr entries) ∧
    entries.map (member? "name") = names.map (some ∘ .str)

end Json

theorem Property.member?_summary (name : String) (property : Property) :
    (property.summary name).member? "name" = some (.str name) := rfl

theorem Relation.member?_summary (name : String) (relation : Relation) :
    (relation.summary name).member? "name" = some (.str name) := rfl

theorem Definition.listsFields_summary (definition : Definition) (typeName : String) :
    (definition.summary typeName).ListsFields definition.fieldNames := by
  refine ⟨_, rfl, ?_⟩
  simp [fieldNames, Function.comp_def, Property.member?_summary, Relation.member?_summary]

namespace Compiler

variable {compiler : Compiler} {requested : String}

theorem load_canonical (settled : compiler.source.Settled requested) :
    compiler.load (compiler.canonical requested) = compiler.load requested := by
  have fixed : compiler.canonical (compiler.canonical requested) = compiler.canonical requested :=
    settled
  rw [load, load, fixed]

/-- A call for a settled name comes to what loading its definition and compiling that as such come
to. -/
theorem compile_eq_of_settled (regular : compiler.source.Regular)
    (settled : compiler.source.Settled requested) (built : Nat) :
    compiler.compile built requested =
      compiler.compileLoaded compiler.depth built (compiler.load requested) := by
  rw [compile_eq_compileLoaded, load_canonical settled]
  cases load : compiler.load requested with
  | mk result activities =>
    cases result with
    | error error => rfl
    | ok definition =>
      have lists := compiler.source.lists_names
      obtain ⟨settled, -⟩ := settledDefinition_of_load regular lists (congrArg Prod.fst load)
      -- A call may nest one definition less than its own, and that is still enough.
      have enough : compiler.source.names.length < compiler.depth - 1 := by
        have deep : compiler.source.names.length + 2 ≤ compiler.depth :=
          Nat.le_mul_of_pos_right _ (Nat.succ_pos _)
        omega
      have empty : ({ built } : CompileState).stack = [] := rfl
      simp only [compileLoaded, settled.run_eq regular lists enough empty]

theorem result_compile_eq_load (regular : compiler.source.Regular)
    (settled : compiler.source.Settled requested) (built : Nat) :
    (compiler.compile built requested).result =
      ((compiler.load requested).1.mapError .schema).bind fun definition =>
        (compiler.compileDefinition built definition).result := by
  rw [compile_eq_of_settled regular settled]
  rcases compiler.load requested with ⟨_ | _, _⟩ <;> rfl

/-- Describing a definition does what compiling its name does, and makes the summary of it. -/
theorem describe_eq_compile (regular : compiler.source.Regular)
    (settled : compiler.source.Settled requested) (built : Nat) :
    compiler.describe built requested =
      { compiler.compile built requested with
        result := ((compiler.load requested).1.mapError .schema).bind fun definition =>
          (compiler.compile built requested).result.map fun compiled =>
            definition.summary compiled.validator.typeName } := by
  rw [compile_eq_of_settled regular settled, describe]
  rcases compiler.load requested with ⟨_ | _, _⟩ <;> rfl

end Compiler

theorem Compiler.fieldNames_of_compileDefinition {compiler : Compiler} {built : Nat}
    {definition : Definition} {compiled : Compiled}
    (h : (compiler.compileDefinition built definition).result = .ok compiled) :
    compiled.validator.fieldNames = definition.fieldNames := by
  obtain ⟨schema, rfl, compiles⟩ := compiles_of_compileDefinition h
  rw [compiles.validator_eq, compiles.resolves.fieldNames_eq, Definition.fields_names]

namespace Cli

variable {config : Config} {tree : FileTree} {typeName : String} {stdin : ByteArray}
  {failure : Failure}

theorem stdout_check {summary : Json} (h : (summarize config tree typeName).result = .ok summary) :
    (check config tree typeName).stdout = Response.ok summary := by
  unfold check
  dsimp only
  rw [h]

theorem result_check (h : (summarize config tree typeName).result = .error failure) :
    (check config tree typeName).result = .error (.definition failure.reported) := by
  unfold check
  dsimp only
  rw [h]

theorem result_validate {document : Json} (read : readDocument stdin = .ok document)
    (h : ((config.compiler tree).compile 0 typeName).result = .error failure) :
    (validate config tree typeName stdin).result = .error (.definition failure.reported) := by
  unfold validate
  rw [read]
  dsimp only
  rw [h]

/-- Checking a definition and validating against it agree: either both have the same validator, and
the summary that is printed lists its fields in their order, each once, or both have the same error,
and both commands fail with it. -/
theorem check_agrees_with_validate (config : Config) (tree : FileTree) (typeName : String)
    (regular : (config.compiler tree).source.Regular)
    (settled : (config.compiler tree).source.Settled typeName) :
    (∃ definition compiled summary,
      ((config.compiler tree).load typeName).1 = .ok definition ∧
      ((config.compiler tree).compileDefinition 0 definition).result = .ok compiled ∧
      ((config.compiler tree).compile 0 typeName).result = .ok compiled ∧
      (summarize config tree typeName).result = .ok summary ∧
      (check config tree typeName).stdout = Response.ok summary ∧
      summary.ListsFields compiled.validator.fieldNames ∧
      compiled.validator.fieldNames.Nodup) ∨
    ∃ error,
      ((((config.compiler tree).load typeName).1.mapError .schema).bind fun definition =>
        ((config.compiler tree).compileDefinition 0 definition).result) = .error (.schema error) ∧
      ((config.compiler tree).compile 0 typeName).result = .error (.schema error) ∧
      (summarize config tree typeName).result = .error (.schema error) ∧
      (check config tree typeName).result = .error (.definition error) ∧
      ∀ stdin document, readDocument stdin = .ok document →
        (validate config tree typeName stdin).result = .error (.definition error) := by
  have same := Compiler.result_compile_eq_load regular settled 0
  have described : (summarize config tree typeName).result = _ :=
    congrArg Outcome.result (Compiler.describe_eq_compile regular settled 0)
  cases result : ((config.compiler tree).compile 0 typeName).result with
  | ok compiled =>
    obtain ⟨definition, loaded, compiles⟩ := bind_eq_ok.1 (same.symm.trans result)
    have load := mapError_eq_ok.1 loaded
    have fieldNames := Compiler.fieldNames_of_compileDefinition compiles
    rw [load, result] at described
    refine .inl ⟨definition, compiled, definition.summary compiled.validator.typeName, load,
      compiles, rfl, described, stdout_check described, ?_, ?_⟩
    · rw [fieldNames]
      exact definition.listsFields_summary _
    · rw [fieldNames]
      exact definition.nodup
  | error failure =>
    obtain ⟨error, rfl⟩ := Compiler.eq_schema_of_compile regular settled result
    have failed : (summarize config tree typeName).result = .error (.schema error) := by
      rw [described]
      cases load : ((config.compiler tree).load typeName).1 with
      | ok definition =>
        rw [result]
        rfl
      | error fault =>
        rw [load, result] at same
        cases same
        rfl
    have alike : ∀ stdin document, readDocument stdin = .ok document →
        (validate config tree typeName stdin).result = .error (.definition error) :=
      fun stdin document read => result_validate read result
    exact .inr ⟨error, same.symm.trans result, rfl, failed, result_check failed, alike⟩

/-- Posts with a tag, and drafts with a note of no known type. -/
def posts : FileTree :=
  (((FileTree.bare []).addFile "Post.json" (Json.obj [("properties", .obj [
    ("tag", .obj [("type", .str "Tag.json")]), ("at", .obj [("type", .str "int")])])]).render.toUTF8
  ).addFile "Tag.json" (Json.obj []).render.toUTF8
  ).addFile "Draft.json" (Json.obj [("properties", .obj [
    ("note", .obj [("type", .str "Note")])])]).render.toUTF8

/-- Definitions are searched in one root. -/
def here : Config := { roots := ["/"] }

theorem check_agrees_with_validate_posts :
    (∃ compiled summary, ((here.compiler posts).compile 0 "Post.json").result = .ok compiled ∧
      (summarize here posts "Post.json").result = .ok summary ∧
      compiled.validator.fieldNames = ["tag", "at"] ∧ summary.ListsFields ["tag", "at"]) ∧
    (check here posts "Draft").result =
        .error (.definition (.unknownFieldType "Draft" "note" "Note")) ∧
      ((here.compiler posts).compile 0 "Draft").result =
        .error (.schema (.unknownFieldType "Draft" "note" "Note")) := by
  have regular : (here.compiler posts).source.Regular :=
    Source.regular_of_isRegular (by decide +kernel)
  have canonical : (here.compiler posts).canonical "Post.json" = "Post" ∧
      (here.compiler posts).canonical "Post" = "Post" ∧
      (here.compiler posts).canonical "Draft" = "Draft" := by decide +kernel
  obtain ⟨post, plain, draft⟩ := canonical
  have settled : (here.compiler posts).source.Settled "Post.json" :=
    (congrArg (here.compiler posts).canonical post).trans (plain.trans post.symm)
  have settled' : (here.compiler posts).source.Settled "Draft" :=
    congrArg (here.compiler posts).canonical draft
  constructor
  · have listed : ((here.compiler posts).compile 0 "Post.json").result.toOption.map
        (·.validator.fieldNames) = some ["tag", "at"] := by decide +kernel
    obtain ⟨-, compiled, summary, -, -, compiles, summarized, -, lists, -⟩ | failed :=
      check_agrees_with_validate here posts "Post.json" regular settled
    · rw [compiles] at listed
      have names := Option.some.inj listed
      exact ⟨compiled, summary, compiles, summarized, names, names ▸ lists⟩
    · obtain ⟨error, -, compiles, -⟩ := failed
      rw [compiles] at listed
      cases listed
  · have told : ((here.compiler posts).compile 0 "Draft").result =
        .error (.schema (.unknownFieldType "Draft" "note" "Note")) :=
      errorOf?_eq_some.1 (by decide +kernel)
    obtain ⟨-, compiled, -, -, -, compiles, -⟩ | failed :=
      check_agrees_with_validate here posts "Draft" regular settled'
    · rw [compiles] at told
      cases told
    · obtain ⟨error, -, compiles, -, checked, -⟩ := failed
      rw [compiles] at told
      cases told
      exact ⟨checked, compiles⟩

end Cli

end DocModel
