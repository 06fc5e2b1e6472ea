import DocModel.Cli.Arguments
import DocModel.Cli.Error
import DocModel.Config.Reader
import DocModel.Summary
import DocModel.Validator.Validate

namespace DocModel.Cli

/-- What a command line leads to: the exit code, what is written, and what happened on the way. -/
structure Report where
  exit : Nat
  stdout : String
  stderr : String
  activities : List Activity

namespace Response

def line (members : Json.Members) : String := (Json.obj members).render ++ "\n"

def ok (data : Json) : String := line [("status", .str "ok"), ("data", data)]

def error (code message : String) : String :=
  line [("status", .str "error"), ("code", .str code), ("message", .str message)]

def violations (rejection : Rejection) : String :=
  let entry (violation : Violation) : Json :=
    .obj [("path", .str violation.path), ("message", .str violation.message)]
  line [("status", .str "error"), ("code", .str Rejection.code.text),
    ("violations", .arr (rejection.violations.map entry))]

end Response

/-- A step of a command: its result, or the error and what is answered to it. -/
structure Answer where
  result : Except Error Unit
  stdout : String
  activities : List Activity

/-- The document on the standard input. -/
def readDocument (stdin : ByteArray) : Except InputFault Json :=
  match String.fromUTF8? stdin with
  | none => .error .notUtf8
  | some text =>
    if (Text.trim text.toList).isEmpty then .error .empty else (Json.parse text).mapError .malformed

/-- Compiles a definition and summarizes it. -/
def summarize (config : Config) (tree : FileTree) (typeName : String) : Outcome Json :=
  (config.compiler tree).describe 0 typeName

def check (config : Config) (tree : FileTree) (typeName : String) : Answer :=
  let outcome := summarize config tree typeName
  match outcome.result with
  | .ok summary => ⟨.ok (), Response.ok summary, outcome.activities⟩
  | .error failure =>
    let error := Error.definition failure.reported
    ⟨.error error, Response.error error.code.text error.message, outcome.activities⟩

/-- Validates the document on the standard input. There is no entity store. -/
def validate (config : Config) (tree : FileTree) (typeName : String) (stdin : ByteArray) : Answer :=
  match readDocument stdin with
  | .error fault => ⟨.error (.input fault), "", []⟩
  | .ok document =>
    let outcome := (config.compiler tree).compile 0 typeName
    match outcome.result with
    | .error failure =>
      let error := failure.reported
      ⟨.error (.definition error), Response.error error.code.text error.message, outcome.activities⟩
    | .ok compiled =>
      let verdict := compiled.validator.validate none document
      let activities := outcome.activities ++ verdict.activities
      match verdict.result with
      | .ok cleaned => ⟨.ok (), Response.ok cleaned, activities⟩
      | .error rejection =>
        ⟨.error (.validation rejection), Response.violations rejection, activities⟩

/-- The level at which a run starts to log, before its configuration is known. -/
def initialLevel : Log.Severity := .info

/-- Runs a command; log records precede the error on the standard error. -/
def Command.run (command : Command) (tree : FileTree) (stdin : ByteArray) : Report :=
  match Config.load tree command.config with
  | .error fault => ⟨1, "", (Error.config fault).display ++ "\n", []⟩
  | .ok (config, level) =>
    let loaded := [Config.loaded command.config config]
    let answer := match command.verb with
      | .check => check config tree command.typeName
      | .validate => validate config tree command.typeName stdin
    let log := String.join (logLines initialLevel loaded ++ logLines level answer.activities)
    let activities := loaded ++ answer.activities
    match answer.result with
    | .ok () => ⟨0, answer.stdout, log, activities⟩
    | .error error => ⟨1, answer.stdout, log ++ error.display ++ "\n", activities⟩

def versionText : String := "modelgen 0.1.0\n"

/-- Runs a command line; one that cannot be read has exit code 2. -/
def run (arguments : List String) (tree : FileTree) (stdin : ByteArray) : Report :=
  match Request.ofArguments? arguments with
  | none => ⟨2, "", "", []⟩
  | some .version => ⟨0, versionText, "", []⟩
  | some (.command command) => command.run tree stdin

/-- Whether a command line may read the standard input. -/
def readsInput (arguments : List String) : Bool :=
  match Request.ofArguments? arguments with
  | some (.command command) => command.verb == .validate
  | _ => false

/-- The paths that a report rests on: the configuration, and where the definitions it asked for
may stand. -/
def sources (arguments : List String) (tree : FileTree) (report : Report) : List String :=
  match Request.ofArguments? arguments with
  | some (.command command) =>
    let definitions := match Config.load tree command.config with
      | .ok (config, _) =>
        let names := report.activities.filterMap Activity.fetchedName?
        names.flatMap (config.directory tree).candidates
      | .error _ => []
    command.config :: definitions
  | _ => []

end DocModel.Cli
