import DocModel.Activity
import DocModel.Definition.Reader

namespace DocModel

/-- The extension of definition names, unless another one is given. -/
def defaultExtension : String := "json"

/-- The name without one extension; a name that is all extension keeps it. -/
def stripExtension (extension name : String) : String :=
  let ending := '.' :: extension.toList
  let chars := name.toList
  if ending.isSuffixOf chars ∧ ending.length < chars.length then
    String.ofList (chars.take (chars.length - ending.length))
  else name

/-- Where definition documents come from. Only finitely many names have a document. The list of them
bounds the depth of a compilation, and nothing else depends on it. -/
structure Source where
  extension : String
  fetch : String → Except SchemaError (Option Json)
  names : List String
  mem_names : ∀ {name : String} {document : Json},
    fetch name = .ok (some document) → name ∈ names

namespace Source

def canonical (source : Source) (name : String) : String := stripExtension source.extension name

/-- Fetches and reads the definition of a name, with or without the extension. -/
def load (source : Source) (requested : String) : Except SchemaError Definition × List Activity :=
  let name := source.canonical requested
  match source.fetch name with
  | .error error => (.error error, [.fetched name])
  | .ok none => (.error (.definitionNotFound name), [.fetched name, .missing name])
  | .ok (some document) =>
    match Definition.ofJson name document with
    | .error error => (.error error, [.fetched name])
    | .ok definition => (.ok definition, [.fetched name, .parsed name])

end Source

/-- Documents registered under their names, in the order they came. -/
structure Registry where
  documents : List (String × Json)

namespace Registry

def empty : Registry := ⟨[]⟩

/-- A name can be registered once, with or without the extension. -/
def register (registry : Registry) (requested : String) (document : Json) :
    Except SchemaError Registry :=
  let name := stripExtension defaultExtension requested
  if name ∈ registry.documents.map (·.1) then
    .error (.malformedDefinition name .alreadyRegistered)
  else .ok ⟨registry.documents ++ [(name, document)]⟩

def registerAll (registry : Registry) (documents : List (String × Json)) :
    Except SchemaError Registry :=
  documents.foldlM (fun registry (name, document) => registry.register name document) registry

def source (registry : Registry) : Source where
  extension := defaultExtension
  fetch name := .ok (registry.documents.lookup name)
  names := registry.documents.map (·.1)
  mem_names {name document} h := by
    obtain ⟨before, after, split, -⟩ := List.lookup_eq_some_iff.1 (Except.ok.inj h)
    simp [split]

end Registry

end DocModel
