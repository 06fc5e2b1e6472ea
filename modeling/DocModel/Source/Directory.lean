import DocModel.FileTree
import DocModel.Json.Reader
import DocModel.Source

namespace DocModel

/-- The directory of embedded definitions in a root, unless another one is named. -/
def embeddedDirectory : String := "embedded_models.json"

/-- Definition files searched in ordered roots; in each root the directory of embedded definitions,
if there is one, comes first. -/
structure Directory where
  tree : FileTree
  roots : List String
  extension : String := defaultExtension
  embedded : Option String := some embeddedDirectory

def hasDoubleDot : List Char → Bool
  | '.' :: '.' :: _ => true
  | _ :: rest => hasDoubleDot rest
  | [] => false

/-- A name that stays a single file name inside its root. -/
def isPlainName (name : String) : Bool :=
  !name.isEmpty && name.toList.all (fun c => c != '/' && c != '\\') && !hasDoubleDot name.toList

namespace Directory

/-- What the file name of a definition adds to its name. -/
def suffix (directory : Directory) : String := "." ++ directory.extension

def fileName (directory : Directory) (name : String) : String := name ++ directory.suffix

/-- The paths at which a definition may stand, in the order of the search. -/
def candidates (directory : Directory) (name : String) : List String :=
  directory.roots.flatMap fun root =>
    (directory.embedded.map fun inner =>
      FilePath.join (FilePath.join root inner) (directory.fileName name)).toList ++
    [FilePath.join root (directory.fileName name)]

def readDocument (directory : Directory) (name path : String) : Except SchemaError Json :=
  match directory.tree.readText path with
  | .error fault => .error (.malformedDefinition name (.unreadable path fault.message))
  | .ok text => (Json.parse text).mapError fun reason =>
    .malformedDefinition name (.invalidJson path reason)

/-- The first file found is the definition, even if it cannot be read. -/
def fetch (directory : Directory) (name : String) : Except SchemaError (Option Json) :=
  if isPlainName name then
    match (directory.candidates name).find? directory.tree.isFile with
    | some path => (directory.readDocument name path).map some
    | none => .ok none
  else .error (.malformedDefinition name .unsafeName)

/-- The suffix up to a slash in the extension. -/
def ending (directory : Directory) : List Char := directory.suffix.toList.takeWhile (· != '/')

/-- The names whose files the tree may hold. -/
def names (directory : Directory) : List String :=
  "." :: directory.tree.names.map fun file =>
    String.ofList (file.toList.take (file.toList.length - directory.ending.length))

theorem mem_parts_fileName (directory : Directory) {name : String} (plain : isPlainName name) :
    name.toList ++ directory.ending ∈ FilePath.parts (directory.fileName name).toList := by
  have noSlash : ∀ c ∈ name.toList, (c != '/') = true := by
    intro c mem
    simp only [isPlainName, Bool.and_eq_true, List.all_eq_true] at plain
    exact (plain.1.2 c mem).1
  have first := FilePath.takeWhile_mem_parts (directory.fileName name).toList
  rw [fileName, String.toList_append, List.takeWhile_append_of_pos noSlash] at first
  rwa [fileName, ending, String.toList_append]

theorem mem_parts_candidate {directory : Directory} {name path : String} (plain : isPlainName name)
    (h : path ∈ directory.candidates name) :
    name.toList ++ directory.ending ∈ FilePath.parts path.toList := by
  have file := directory.mem_parts_fileName plain
  simp only [candidates, List.mem_flatMap, List.mem_append, Option.mem_toList,
    Option.map_eq_some_iff, List.mem_singleton] at h
  obtain ⟨root, -, ⟨inner, -, rfl⟩ | rfl⟩ := h
  · exact FilePath.mem_parts_join file
  · exact FilePath.mem_parts_join file

theorem ending_eq_cons (directory : Directory) : ∃ rest, directory.ending = '.' :: rest :=
  ⟨directory.extension.toList.takeWhile (· != '/'), by simp [ending, suffix]⟩

theorem mem_names {directory : Directory} {name path : String} (plain : isPlainName name)
    (h : path ∈ directory.candidates name) (isFile : directory.tree.isFile path) :
    name ∈ directory.names := by
  have part := List.mem_map_of_mem (f := String.ofList) (mem_parts_candidate plain h)
  by_cases dot : name = "."
  · simp [names, dot]
  · have nonempty : name.toList ≠ [] := by
      intro empty
      have : name = "" := String.toList_inj.1 (by simpa using empty)
      simp [isPlainName, this] at plain
    have ordinary : String.ofList (name.toList ++ directory.ending) ≠ "" ∧
        String.ofList (name.toList ++ directory.ending) ≠ "." ∧
        String.ofList (name.toList ++ directory.ending) ≠ ".." := by
      obtain ⟨rest, ends⟩ := directory.ending_eq_cons
      obtain ⟨c, chars, spelled⟩ := List.exists_cons_of_ne_nil nonempty
      have only : chars = [] → c ≠ '.' := by
        rintro rfl rfl
        exact dot (String.toList_inj.1 (by simpa using spelled))
      simp only [ne_eq, ← String.toList_inj, String.toList_ofList, spelled, ends]
      refine ⟨by simp, by simp, ?_⟩
      intro h
      cases chars <;> simp_all
    obtain ⟨node, resolved⟩ : ∃ node, directory.tree.resolve path = .ok node := by
      unfold FileTree.isFile at isFile
      split at isFile
      · next resolved => exact ⟨_, resolved⟩
      · cases isFile
    obtain ⟨there, led, stands⟩ := FileTree.walk_of_resolve resolved
    have listed := FileTree.mem_names_of_walk led stands part ordinary
    refine List.mem_cons_of_mem _ (List.mem_map.2 ⟨_, listed, ?_⟩)
    simp

def source (directory : Directory) : Source where
  extension := directory.extension
  fetch := directory.fetch
  names := directory.names
  mem_names {name document} h := by
    unfold fetch at h
    split at h
    · next plain =>
      split at h
      · next path found =>
        exact mem_names plain (List.mem_of_find?_eq_some found) (List.find?_some found)
      · cases h
    · cases h

end Directory

end DocModel
