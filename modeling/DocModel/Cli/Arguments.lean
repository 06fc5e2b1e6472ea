namespace DocModel.Cli

inductive Verb
  | check
  | validate
deriving DecidableEq

def Verb.ofName? : String → Option Verb
  | "check" => some .check
  | "validate" => some .validate
  | _ => none

/-- A command on one document type, with the path of its configuration. -/
structure Command where
  verb : Verb
  config : String
  typeName : String
deriving DecidableEq

inductive Request
  | version
  | command (command : Command)
deriving DecidableEq

def defaultConfig : String := "./modelgen.json"

structure Options where
  config : Option String := none
  typeName : Option String := none

namespace Options

inductive Name
  | config
  | type

def Name.ofText? : List Char → Option Name
  | ['c', 'o', 'n', 'f', 'i', 'g'] => some .config
  | ['t', 'y', 'p', 'e'] => some .type
  | _ => none

/-- Sets an option that is not set yet; the path of a configuration is not empty. -/
def set? (options : Options) (name : Name) (value : String) : Option Options :=
  match name with
  | .config =>
    if options.config.isSome ∨ value.isEmpty then none
    else some { options with config := some value }
  | .type =>
    if options.typeName.isSome then none else some { options with typeName := some value }

/-- The name of a long option, and the value after an equals sign. -/
def split? (argument : String) : Option (Name × Option String) :=
  match argument.toList with
  | '-' :: '-' :: rest =>
    let value := match rest.dropWhile (· != '=') with
      | [] => none
      | _ :: value => some (String.ofList value)
    (Name.ofText? (rest.takeWhile (· != '='))).map (·, value)
  | _ => none

/-- A value that stands by itself does not begin with a dash, unless it is one. -/
def isValue (argument : String) : Bool := argument == "-" || argument.toList.head? != some '-'

/-- Reads options to the end; a closing `--` may follow them. -/
def read? (options : Options) : List String → Option Options
  | [] => some options
  | ["--"] => some options
  | argument :: rest =>
    match split? argument, rest with
    | some (name, some value), rest =>
      (options.set? name value).bind fun options => options.read? rest
    | some (name, none), value :: rest =>
      if isValue value then (options.set? name value).bind fun options => options.read? rest
      else none
    | _, _ => none

end Options

namespace Request

/-- Whether the argument asks for the version; letters after a lone `V` are not looked at. -/
def asksVersion (argument : String) : Bool :=
  argument == "--version" || "-V".toList.isPrefixOf argument.toList

/-- Reads the arguments of a command line. -/
def ofArguments? : List String → Option Request
  | [] => none
  | first :: rest =>
    if asksVersion first then some .version
    else do
      let verb ← Verb.ofName? first
      let options ← Options.read? {} rest
      let typeName ← options.typeName
      return .command ⟨verb, options.config.getD defaultConfig, typeName⟩

end Request

end DocModel.Cli
