import DocModel.Proofs.Compile.Reached
import DocModel.Proofs.Source.Searched

namespace DocModel

namespace Compiler

variable {compiler other : Compiler}

/-- The sources of two compilers give the same documents; they may list different names. -/
structure SameDocuments (compiler other : Compiler) : Prop where
  extension : other.source.extension = compiler.source.extension
  fetch : ∀ name, other.source.fetch name = compiler.source.fetch name
  strict : other.rejectsUnknown = compiler.rejectsUnknown

/-- What the two compilers make of a name or of a definition is the same within any bound on the
depth, and so is the whole call where the bound does not matter. -/
structure SameResults (compiler other : Compiler) : Prop where
  named : ∀ fuel, other.compileNamed fuel = compiler.compileNamed fuel
  given : ∀ fuel,
    other.build (other.compileNamed fuel) = compiler.build (compiler.compileNamed fuel)
  compile : compiler.source.Regular → ∀ requested, compiler.source.Settled requested →
    ∀ built, other.compile built requested = compiler.compile built requested
  compileDefinition : compiler.source.Regular → ∀ definition,
    compiler.SettledDefinition definition →
    ∀ built, other.compileDefinition built definition = compiler.compileDefinition built definition

namespace SameDocuments

variable (same : compiler.SameDocuments other)

include same

theorem agreesFrom (declared : List String) : compiler.AgreesFrom other declared :=
  ⟨same.extension, same.strict, fun name _ => same.fetch name⟩

theorem loadsAlike : compiler.LoadsAlike other Set.univ := by
  have canonical := (same.agreesFrom []).canonical
  refine ⟨canonical, same.strict, ?_, fun _ _ _ _ _ _ => Set.mem_univ _⟩
  intro name _
  rw [Compiler.load, Compiler.load, canonical, Source.load, Source.load, Source.canonical,
    Source.canonical, same.extension, same.fetch]

theorem compileNamed (fuel : Nat) : other.compileNamed fuel = compiler.compileNamed fuel := by
  funext name state
  exact same.loadsAlike.run_compileNamed fuel (Set.mem_univ name) state

theorem sameResults : compiler.SameResults other where
  named := same.compileNamed
  given fuel := by
    funext definition state
    rw [same.compileNamed]
    exact same.loadsAlike.run_build (fun _ _ => Set.mem_univ _) fun _ _ _ => rfl
  compile regular requested settled :=
    compile_eq_of_reached regular settled (same.agreesFrom [requested])
  compileDefinition regular definition settled :=
    compileDefinition_eq_of_reached regular settled (same.agreesFrom definition.targets)

end SameDocuments

end Compiler

namespace Directory

variable {directory : Directory}

/-- What a search for a name comes to: a single file name is looked for in each of the places, it
stands for nothing but an entry of that place, and the first file decides. -/
structure Searches (directory : Directory) (name : String) : Prop where
  looks : directory.candidates name =
    directory.places.map (FilePath.join · (directory.fileName name))
  single : FilePath.IsEntry (directory.fileName name)
  inside : ∀ place ∈ directory.places, ∀ node,
    directory.tree.resolve (FilePath.join place (directory.fileName name)) = .ok node →
    ∃ here, directory.tree.follow place = .ok here ∧ directory.tree.node? here = some .directory ∧
      directory.tree.node? (here ++ [directory.fileName name]) = some node
  absent : directory.fetch name = .ok none ↔
    ∀ path ∈ directory.candidates name, ¬directory.tree.isFile path
  first : ∀ path content, FirstFile directory.tree (directory.candidates name) path content →
    ∃ result, ReadAs name path content result ∧ directory.fetch name = result.map some

theorem searches_of_plain {name : String} (extended : directory.extension ≠ "")
    (flat : '/' ∉ directory.extension.toList) (plain : ¬Strays name) :
    directory.Searches name where
  looks := directory.candidates_eq_map name
  single := isEntry_fileName extended flat plain
  inside _ _ _ := FileTree.entry_of_resolve_join (isEntry_fileName extended flat plain)
  absent := fetch_eq_none_iff plain
  first _ _ := fetch_of_firstFile plain

/-- A name that might lead elsewhere is refused, and any other one is searched as a single file name
in the places of the directory, where the first file decides. So whatever names the definitions
contain, the compiler depends on nothing in the tree but what stands directly in these places. -/
theorem names_stay_in_places (directory : Directory) (extended : directory.extension ≠ "")
    (flat : '/' ∉ directory.extension.toList) :
    (∀ name, Strays name → directory.fetch name = .error (.malformedDefinition name .unsafeName)) ∧
    (∀ name, ¬Strays name → directory.Searches name) ∧
    ∀ other : FileTree, (∀ place ∈ directory.places, directory.tree.SameIn other place) →
      (∀ name, (directory.inTree other).fetch name = directory.fetch name) ∧
      ∀ strict, Compiler.SameResults ⟨directory.source, strict⟩
        ⟨(directory.inTree other).source, strict⟩ := by
  refine ⟨fun _ => fetch_of_strays, fun _ => searches_of_plain extended flat, ?_⟩
  intro other same
  have fetch := fetch_inTree extended flat same
  exact ⟨fetch, fun _ => Compiler.SameDocuments.sameResults ⟨rfl, fetch, rfl⟩⟩

/-- A note that may not be opened stands before one that may, and a tag stands outside. -/
def shelf : FileTree :=
  (((FileTree.bare []).placeFile "defs/embedded_models.json/Note.json" none
  ).addFile "defs/Note.json" (Json.obj []).render.toUTF8
  ).addFile "Tag.json" (Json.obj []).render.toUTF8

/-- Definitions are searched on the shelf. -/
def shelved : Directory := { tree := shelf, roots := ["defs"] }

/-- The shelf, with another tag outside. -/
def shelf' : FileTree := shelf.put ["Tag.json"] (.file none)

theorem names_stay_in_places_shelf :
    shelved.extension ≠ "" ∧ '/' ∉ shelved.extension.toList ∧
      shelved.fetch "../Tag" = .error (.malformedDefinition "../Tag" .unsafeName) ∧
      shelved.fetch "Tag" = .ok none ∧
      shelf.isFile "defs/Note.json" ∧
      shelved.fetch "Note" = .error (.malformedDefinition "Note"
        (.unreadable "defs/embedded_models.json/Note.json" "Permission denied (os error 13)")) ∧
      shelf.readText "Tag.json" ≠ shelf'.readText "Tag.json" ∧
      ∀ name, (shelved.inTree shelf').fetch name = shelved.fetch name := by
  have extended : shelved.extension ≠ "" := by decide
  have flat : '/' ∉ shelved.extension.toList := by decide
  obtain ⟨refused, searched, depends⟩ := names_stay_in_places shelved extended flat
  have plain : ¬Strays "Tag" ∧ ¬Strays "Note" := by
    rw [← isPlainName_iff, ← isPlainName_iff]
    decide
  obtain ⟨tag, note⟩ := plain
  have strays : Strays "../Tag" := .inr (.inl (by decide))
  have places : shelved.places = ["defs/embedded_models.json", "defs"] := by decide +kernel
  have listed : shelved.candidates "Note" =
      ["defs/embedded_models.json/Note.json", "defs/Note.json"] := by decide +kernel
  have sealed : shelf.resolve "defs/embedded_models.json/Note.json" = .ok (.file none) := by
    rfl
  have first : FirstFile shelf (shelved.candidates "Note") "defs/embedded_models.json/Note.json"
      none := ⟨⟨[], ["defs/Note.json"], listed, by simp⟩, sealed⟩
  refine ⟨extended, flat, refused _ strays, ?_, by decide +kernel, ?_, ?_, ?_⟩
  · rw [(searched "Tag" tag).absent]
    decide +kernel
  · obtain ⟨result, read, fetched⟩ := (searched "Note" note).first _ _ first
    cases read
    exact fetched
  · have legible : (shelf.readText "Tag.json").isOk := by decide +kernel
    have denied : (shelf'.readText "Tag.json").isOk = false := by decide +kernel
    intro same
    rw [same, denied] at legible
    cases legible
  · refine (depends shelf' ?_).1
    have below (place : String) (here : List String)
        (leads : shelf.follow place = .ok ("defs" :: here))
        (leads' : shelf'.follow place = .ok ("defs" :: here)) : shelf.SameIn shelf' place := by
      refine .put (leads'.trans leads.symm) fun there ends => ?_
      cases leads.symm.trans ends
      exact ⟨by simp, by simp⟩
    intro place mem
    rw [places] at mem
    obtain rfl | rfl : place = "defs/embedded_models.json" ∨ place = "defs" := by simpa using mem
    · exact below _ ["embedded_models.json"] rfl rfl
    · exact below _ [] rfl rfl

end Directory

end DocModel
