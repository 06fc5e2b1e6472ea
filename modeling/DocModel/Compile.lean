import DocModel.Source
import DocModel.Validator

namespace DocModel

/-- Which construction a validator came from, and those of the validators it embeds, field by
field. -/
inductive Identity
  | mk (serial : Nat) (embedded : List Identity)

def Identity.serial : Identity → Nat
  | mk serial _ => serial

def Identity.embedded : Identity → List Identity
  | mk _ embedded => embedded

/-- A validator as it was built once; two of one identity are one and the same. -/
structure Compiled where
  validator : Validator
  identity : Identity

namespace Compiled

/-- Gives the embedded identities to the rules that embed, in order. -/
def pairRules : List FieldRule → List Identity → List (FieldRule × Option Compiled)
  | [], _ => []
  | rule :: rules, identities =>
    match rule.nested?, identities with
    | some (_, nested), identity :: identities =>
      (rule, some ⟨nested, identity⟩) :: pairRules rules identities
    | _, identities => (rule, none) :: pairRules rules identities

/-- The rules, each with the validator that it embeds. -/
def rules (compiled : Compiled) : List (FieldRule × Option Compiled) :=
  pairRules compiled.validator.rules compiled.identity.embedded

def rule? (compiled : Compiled) (field : String) : Option (FieldRule × Option Compiled) :=
  compiled.rules.find? (·.1.name == field)

end Compiled

/-- Turns the definitions of a source into validators. -/
structure Compiler where
  source : Source
  rejectsUnknown : Bool := true

/-- The definitions being compiled, outermost first, the validators finished in this call, and how
many have ever been built. -/
structure CompileState where
  stack : List String := []
  finished : List (String × Compiled) := []
  built : Nat := 0
  activities : List Activity := []

namespace CompileState

def note (activity : Activity) (state : CompileState) : CompileState :=
  { state with activities := state.activities ++ [activity] }

def push (name : String) (state : CompileState) : CompileState :=
  { state with stack := state.stack ++ [name] }

def pop (state : CompileState) : CompileState := { state with stack := state.stack.dropLast }

/-- Records a new validator under the name of its definition. -/
def finish (name : String) (compiled : Compiled) (state : CompileState) : CompileState :=
  { state with
    finished := (name, compiled) :: state.finished.filter (·.1 != name)
    built := state.built + 1 }

end CompileState

/-- Why compiling ends without a validator: for an error, or because definitions are nested beyond
the bound. The program has no answer to that; its call stack overflows. -/
inductive Failure
  | schema (error : SchemaError)
  | endless (name : String)
deriving DecidableEq

abbrev Compiling := EStateM Failure CompileState

/-- What a call came to, and what happened on the way. -/
structure Outcome (α : Type) where
  result : Except Failure α
  built : Nat
  activities : List Activity

def Outcome.of {α : Type} : EStateM.Result Failure CompileState α → Outcome α
  | .ok value state => ⟨.ok value, state.built, state.activities⟩
  | .error error state => ⟨.error error, state.built, state.activities⟩

/-- A property type that names no definition is an unknown type, not a missing document. -/
def SchemaError.ofReference (owner field declared target : String) : SchemaError → SchemaError
  | definitionNotFound missing =>
    if missing = target then unknownFieldType owner field declared else definitionNotFound missing
  | error => error

namespace Failure

def ofReference (owner field declared target : String) : Failure → Failure
  | schema error => schema (error.ofReference owner field declared target)
  | endless name => endless name

/-- The error that a failure is reported as; that of an endless nesting is the nearest there is. -/
def reported : Failure → SchemaError
  | schema error => error
  | endless name => .cyclicDefinition [] name

def code (failure : Failure) : ErrorCode := failure.reported.code

end Failure

namespace Compiler

def canonical (compiler : Compiler) (name : String) : String := compiler.source.canonical name

/-- Loads one definition without compiling it. -/
def load (compiler : Compiler) (name : String) : Except SchemaError Definition × List Activity :=
  match compiler.source.load (compiler.canonical name) with
  | (.ok definition, activities) => (.ok definition, activities ++ [.loaded definition.name])
  | (.error error, activities) => (.error error, activities)

def loadDefinition (compiler : Compiler) (name : String) : Compiling Definition := do
  let (result, activities) := compiler.load name
  modify fun state => { state with activities := state.activities ++ activities }
  match result with
  | .ok definition => return definition
  | .error error => throw (.schema error)

/-- The rule of a property, and the identity of the validator that it embeds. -/
def compileProperty (compiler : Compiler) (target : String → Compiling Compiled) (owner : String)
    (field : String × Property) : Compiling (FieldRule × List Identity) := do
  let (name, property) := field
  match property.type with
  | .reference declared =>
    let model := compiler.canonical declared
    let nested ← tryCatch (target model) fun failure =>
      throw (failure.ofReference owner name declared model)
    return (.embedded (property.head name) .one nested.validator, [nested.identity])
  | _ => return (.value (property.head name) property.checks, [])

def compileRelation (compiler : Compiler) (target : String → Compiling Compiled)
    (field : String × Relation) : Compiling (FieldRule × List Identity) := do
  let (name, relation) := field
  match relation.kind with
  | .embeds shape =>
    let nested ← target (compiler.canonical relation.model)
    return (.embedded (relation.head name) (shape.embedding relation.key) nested.validator,
      [nested.identity])
  | _ => return (.value (relation.head name) [], [])

/-- Compiles the fields in declared order, properties first. -/
def compileFields (compiler : Compiler) (target : String → Compiling Compiled)
    (definition : Definition) : Compiling (List (FieldRule × List Identity)) := do
  let properties ← definition.properties.mapM (compiler.compileProperty target definition.name)
  let relations ← definition.relations.mapM (compiler.compileRelation target)
  return properties ++ relations

/-- Compiles a definition; it stands on the stack while its fields are compiled. -/
def build (compiler : Compiler) (target : String → Compiling Compiled) (definition : Definition) :
    Compiling Compiled := do
  modify (·.note (.compiling definition.name))
  modify (·.push definition.name)
  let fields ← tryCatch (compiler.compileFields target definition) fun failure => do
    modify (·.pop.note (.abandoned definition.name failure.code))
    throw failure
  modify CompileState.pop
  let state ← get
  let compiled : Compiled :=
    ⟨.mk definition.name compiler.rejectsUnknown (fields.map (·.1)),
      .mk state.built (fields.flatMap (·.2))⟩
  modify (·.finish definition.name compiled)
  modify (·.note (.compiled definition.name fields.length))
  return compiled

/-- Compiles the definition of a name unless that is done already; a name on the stack embeds
itself. -/
def compileNamed (compiler : Compiler) : Nat → String → Compiling Compiled
  | 0, name => throw (.endless name)
  | fuel + 1, name => do
    let state ← get
    match state.finished.lookup name with
    | some compiled => return compiled
    | none =>
      if state.stack.contains name then throw (.schema (.cyclicDefinition state.stack name))
      let definition ← compiler.loadDefinition name
      compiler.build (compiler.compileNamed fuel) definition

/-- No name stands on the stack twice unless a validator was finished in between, so the stack is no
deeper than the square of the number of names. -/
def depth (compiler : Compiler) : Nat :=
  (compiler.source.names.length + 2) * (compiler.source.names.length + 2)

/-- Compiles the definition of a name with all it embeds. -/
def compile (compiler : Compiler) (built : Nat) (name : String) : Outcome Compiled :=
  .of ((compiler.compileNamed compiler.depth (compiler.canonical name)).run { built })

/-- Compiles a definition given as such; what it embeds is loaded from the source. -/
def compileDefinition (compiler : Compiler) (built : Nat) (definition : Definition) :
    Outcome Compiled :=
  .of ((compiler.build (compiler.compileNamed compiler.depth) definition).run { built })

end Compiler

end DocModel
