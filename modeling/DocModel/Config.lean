import DocModel.Compile
import DocModel.FileTree
import DocModel.Json.Mismatch
import DocModel.Json.Token
import DocModel.Log.Severity
import DocModel.Source.Directory
import DocModel.Text

namespace DocModel

/-- Where definitions are searched, and how documents and log records are judged. -/
structure Config where
  roots : List String
  extension : String := defaultExtension
  embedded : Option String := some embeddedDirectory
  rejectsUnknown : Bool := true
  logLevel : String := "info"
deriving DecidableEq

/-- The settings, in the order in which a list gives them. -/
inductive Config.Setting
  | roots
  | extension
  | embedded
  | rejectsUnknown
  | logLevel
deriving DecidableEq

namespace Config

namespace Setting

def all : List Setting := [roots, extension, embedded, rejectsUnknown, logLevel]

def key : Setting → String
  | roots => "search_roots"
  | extension => "extension"
  | embedded => "embedded_dir"
  | rejectsUnknown => "reject_unknown_keys"
  | logLevel => "log_level"

def ofKey? (key : String) : Option Setting := all.find? (·.key == key)

end Setting

def toJson (config : Config) : Json :=
  .obj [(Setting.roots.key, .ofStrings config.roots),
    (Setting.extension.key, .str config.extension),
    (Setting.embedded.key, (config.embedded.map Json.str).getD .null),
    (Setting.rejectsUnknown.key, .bool config.rejectsUnknown),
    (Setting.logLevel.key, .str config.logLevel)]

/-- What is wrong with the text of a configuration. -/
inductive TextFault
  | malformed (malformation : Json.Malformation)
  | illTyped (mismatch : Json.Mismatch)
  | missingRoots
  | repeated (setting : Setting)
  | emptyList
deriving DecidableEq

def TextFault.text : TextFault → String
  | malformed malformation => malformation.text
  | illTyped mismatch => mismatch.message
  | missingRoots => s!"missing field `{Setting.roots.key}`"
  | repeated setting => s!"duplicate field `{setting.key}`"
  | emptyList => "invalid length 0, expected struct Config with 5 elements"

/-- Why there is no usable configuration. -/
inductive Fault
  | unreadable (fault : FileTree.Fault)
  | invalid (message : String)
  | noRoots
  | emptyExtension
  | emptyEmbedded
  | unknownLevel (level : String)
deriving DecidableEq

def Fault.message : Fault → String
  | unreadable fault => s!"Failed to read config: {fault.message}"
  | invalid message => s!"Invalid config JSON: {message}"
  | noRoots => "search_roots must not be empty"
  | emptyExtension => "extension must not be empty"
  | emptyEmbedded => "embedded_dir must not be empty; use null to disable it"
  | unknownLevel level =>
    s!"Invalid log_level: '{level}'. Expected trace, info, warn, error or fatal."

def isBlankText (text : String) : Bool := text.toList.all Text.isBlank

/-- The level at which to log, if the settings make sense; the first fault is reported. -/
def validate (config : Config) : Except Fault Log.Severity :=
  if config.roots.isEmpty then .error .noRoots
  else if isBlankText config.extension then .error .emptyExtension
  else if config.embedded.any isBlankText then .error .emptyEmbedded
  else
    match Log.Severity.ofName? config.logLevel with
    | some severity => .ok severity
    | none => .error (.unknownLevel config.logLevel)

def directory (config : Config) (tree : FileTree) : Directory :=
  ⟨tree, config.roots, config.extension, config.embedded⟩

def compiler (config : Config) (tree : FileTree) : Compiler :=
  ⟨(config.directory tree).source, config.rejectsUnknown⟩

end Config

end DocModel
