import DocModel.Config
import DocModel.Json.Skim
import DocModel.Json.Token.Scan

namespace DocModel.Config

/-- The settings read so far. -/
structure Draft where
  roots : Option (List String) := none
  extension : Option String := none
  embedded : Option (Option String) := none
  rejectsUnknown : Option Bool := none
  logLevel : Option String := none

namespace Draft

def has (draft : Draft) : Setting → Bool
  | .roots => draft.roots.isSome
  | .extension => draft.extension.isSome
  | .embedded => draft.embedded.isSome
  | .rejectsUnknown => draft.rejectsUnknown.isSome
  | .logLevel => draft.logLevel.isSome

/-- The configuration, with what was not set at its default; there is none for the roots. -/
def toConfig? (draft : Draft) : Option Config :=
  draft.roots.map fun roots =>
    let unset : Config := { roots }
    { roots
      extension := draft.extension.getD unset.extension
      embedded := draft.embedded.getD unset.embedded
      rejectsUnknown := draft.rejectsUnknown.getD unset.rejectsUnknown
      logLevel := draft.logLevel.getD unset.logLevel }

end Draft

/-- A configuration is an object of settings, or a list of them in order. -/
inductive Form
  | object
  | list (left : List Setting)

/-- What the reader waits for. -/
inductive Reading
  | start
  | member (isFirst : Bool) (draft : Draft)
  | afterRepeated (setting : Setting)
  | colon (setting : Option Setting) (draft : Draft)
  | due (setting : Setting) (draft : Draft) (form : Form)
  | root (isFirst : Bool) (roots : List String) (draft : Draft) (form : Form)
  | rootEnd (roots : List String) (draft : Draft) (form : Form)
  | element (isFirst : Bool) (setting : Setting) (left : List Setting) (draft : Draft)
  | surplus
  | settled (draft : Draft) (form : Form)
  | passing (skim : Json.Skim) (draft : Draft)
  | finished (config : Config)

abbrev Located := Text.Located TextFault

def malformed (fault : Json.Fault) : Located := ⟨.malformed fault.problem, fault.offset⟩

def unexpected (token : Json.Token) (malformation : Json.Malformation) : Located :=
  malformed (token.unexpected malformation)

/-- The fault of a token where another type is due. It lies behind a scalar, but before a bracket.
-/
def illTyped (token : Json.Token) (wanted : String) : Located :=
  let behind (found : Json.Found) : Located := ⟨.illTyped ⟨found, wanted⟩, token.stop⟩
  let before (found : Json.Found) : Located := ⟨.illTyped ⟨found, wanted⟩, token.start⟩
  match token.lexeme with
  | .null => behind .null
  | .bool b => behind (.bool b)
  | .number (.ok n) => behind (.number n)
  | .string (.ok s) => behind (.string s)
  | .number (.error fault) | .string (.error fault) => malformed fault
  | .openList => before .sequence
  | .openObject => before .map
  | .broken flaw | .brokenString flaw => malformed flaw.read
  | .closeList | .closeObject | .comma | .colon => unexpected token .expectedValue

namespace Reading

/-- The end of the configuration at the token that closes it. -/
def close (token : Json.Token) (draft : Draft) (whenEmpty : TextFault) : Except Located Reading :=
  match draft.toConfig? with
  | some config => .ok (finished config)
  | none => .error ⟨whenEmpty, token.stop⟩

def beginRoot (token : Json.Token) (roots : List String) (draft : Draft) (form : Form) :
    Except Located Reading :=
  match token.lexeme with
  | .string (.ok s) => .ok (rootEnd (roots ++ [s]) draft form)
  | _ => .error (illTyped token "path string")

/-- Reads the value of a setting, or the start of it. -/
def beginSetting (token : Json.Token) (setting : Setting) (draft : Draft) (form : Form) :
    Except Located Reading :=
  match setting, token.lexeme with
  | .roots, .openList => .ok (root true [] draft form)
  | .roots, _ => .error (illTyped token "a sequence")
  | .extension, .string (.ok s) => .ok (settled { draft with extension := some s } form)
  | .extension, _ => .error (illTyped token "a string")
  | .embedded, .null => .ok (settled { draft with embedded := some none } form)
  | .embedded, .string (.ok s) => .ok (settled { draft with embedded := some (some s) } form)
  | .embedded, _ => .error (illTyped token "a string")
  | .rejectsUnknown, .bool b => .ok (settled { draft with rejectsUnknown := some b } form)
  | .rejectsUnknown, _ => .error (illTyped token "a boolean")
  | .logLevel, .string (.ok s) => .ok (settled { draft with logLevel := some s } form)
  | .logLevel, _ => .error (illTyped token "a string")

def passed (skim : Json.Skim) (draft : Draft) : Reading :=
  match skim with
  | .finished => settled draft .object
  | skim => passing skim draft

def beginMember (token : Json.Token) (draft : Draft) : Except Located Reading :=
  match token.lexeme with
  | .string (.ok key) =>
    match Setting.ofKey? key with
    | some setting =>
      .ok (if draft.has setting then afterRepeated setting else colon (some setting) draft)
    | none => .ok (colon none draft)
  | .string (.error fault) => .error (malformed fault)
  | .brokenString flaw => .error (malformed flaw.read)
  | _ => .error (unexpected token .keyNotString)

def step (reading : Reading) (token : Json.Token) : Except Located Reading :=
  match reading with
  | start =>
    match token.lexeme with
    | .openObject => .ok (member true {})
    | .openList => .ok (element true .roots [.extension, .embedded, .rejectsUnknown, .logLevel] {})
    | _ => .error (illTyped token "struct Config")
  | member isFirst draft =>
    match token.lexeme with
    | .closeObject =>
      if isFirst then close token draft .missingRoots else .error (unexpected token .trailingComma)
    | _ => beginMember token draft
  | afterRepeated setting =>
    match token.lexeme with
    | .closeObject => .error ⟨.repeated setting, token.stop⟩
    | _ => .error ⟨.repeated setting, token.start⟩
  | colon setting draft =>
    match token.lexeme, setting with
    | .colon, some setting => .ok (due setting draft .object)
    | .colon, none => .ok (passing (.due []) draft)
    | _, _ => .error (unexpected token .expectedColon)
  | due setting draft form => beginSetting token setting draft form
  | root isFirst roots draft form =>
    match token.lexeme with
    | .closeList =>
      if isFirst then .ok (settled { draft with roots := some roots } form)
      else .error (unexpected token .trailingComma)
    | _ => beginRoot token roots draft form
  | rootEnd roots draft form =>
    match token.lexeme with
    | .comma => .ok (root false roots draft form)
    | .closeList => .ok (settled { draft with roots := some roots } form)
    | _ => .error (unexpected token .expectedListEnd)
  | element isFirst setting left draft =>
    match token.lexeme with
    | .closeList =>
      if isFirst then close token draft .emptyList else .error (unexpected token .trailingComma)
    | _ => beginSetting token setting draft (.list left)
  | surplus =>
    match token.lexeme with
    | .closeList => .error (unexpected token .trailingComma)
    | _ => .error (unexpected token .trailingCharacters)
  | settled draft .object =>
    match token.lexeme with
    | .comma => .ok (member false draft)
    | .closeObject => close token draft .missingRoots
    | _ => .error (unexpected token .expectedObjectEnd)
  | settled draft (.list left) =>
    match token.lexeme, left with
    | .comma, setting :: left => .ok (element false setting left draft)
    | .comma, [] => .ok surplus
    | .closeList, _ => close token draft .emptyList
    | _, _ :: _ => .error (unexpected token .expectedListEnd)
    | _, [] => .error (unexpected token .trailingCharacters)
  | passing skim draft => ((skim.step token).mapError malformed).map (passed · draft)
  | finished _ => .error (unexpected token .trailingCharacters)

/-- The configuration read once the text ends, at its last offset. -/
def finish (reading : Reading) (offset : Nat) : Except Located Config :=
  let ends (malformation : Json.Malformation) : Except Located Config :=
    .error ⟨.malformed malformation, offset⟩
  match reading with
  | finished config => .ok config
  | start | member false _ | due _ _ _ | root false _ _ _ | element false _ _ _ => ends .endInValue
  | member true _ | colon _ _ | settled _ .object => ends .endInObject
  | root true _ _ _ | rootEnd _ _ _ | element true _ _ _ | settled _ (.list _) => ends .endInList
  | afterRepeated setting => .error ⟨.repeated setting, offset⟩
  | surplus => ends .trailingCharacters
  | passing skim _ => ends skim.unfinished

end Reading

def readText (text : List Char) : Except Located Config := do
  let reading ← (Json.scan 0 text).foldlM Reading.step .start
  reading.finish (Text.byteLength text)

/-- Reads the text of a configuration; the error is the message that tells the fault and its
place. -/
def parse (text : String) : Except String Config :=
  (readText text.toList).mapError (Text.Located.message TextFault.text text.toList)

/-- Loads the configuration at a path, with the level at which to log. -/
def load (tree : FileTree) (path : String) : Except Fault (Config × Log.Severity) := do
  let text ← (tree.readText path).mapError .unreadable
  let config ← (parse text).mapError .invalid
  let severity ← config.validate
  return (config, severity)

/-- What the loading of a configuration is logged as. -/
def loaded (path : String) (config : Config) : Activity := .configured path config.roots.length

end DocModel.Config
