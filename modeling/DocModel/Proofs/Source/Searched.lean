import Mathlib.Data.List.Find
import DocModel.Proofs.FileTree
import DocModel.Source.Directory

namespace DocModel

theorem hasDoubleDot_iff {chars : List Char} : hasDoubleDot chars ↔ ['.', '.'] <:+: chars := by
  fun_induction hasDoubleDot chars with
  | case1 rest => simpa using ⟨[], rest, rfl⟩
  | case2 c rest other ih =>
    have apart : ¬['.', '.'] <+: c :: rest := by
      rintro ⟨after, same⟩
      obtain ⟨rfl, rfl⟩ := List.cons.inj same
      exact other _ rfl rfl
    simp [ih, List.infix_cons_iff, apart]
  | case3 => simp

/-- A name that is no file name or might lead elsewhere. -/
def Strays (name : String) : Prop :=
  name = "" ∨ '/' ∈ name.toList ∨ '\\' ∈ name.toList ∨ ['.', '.'] <:+: name.toList

theorem isPlainName_iff {name : String} : isPlainName name ↔ ¬Strays name := by
  have slashes : (∀ c ∈ name.toList, c ≠ '/' ∧ c ≠ '\\') ↔
      '/' ∉ name.toList ∧ '\\' ∉ name.toList := by
    constructor
    · intro all
      exact ⟨fun mem => (all _ mem).1 rfl, fun mem => (all _ mem).2 rfl⟩
    · rintro ⟨slash, backslash⟩ c mem
      exact ⟨fun same => slash (same ▸ mem), fun same => backslash (same ▸ mem)⟩
  simp only [isPlainName, Strays, Bool.and_eq_true, Bool.not_eq_true', List.all_eq_true, bne_iff_ne,
    slashes, ← Bool.not_eq_true, hasDoubleDot_iff, String.isEmpty_iff, not_or, and_assoc, ne_eq]

namespace Directory

variable {directory : Directory} {name path : String} {content : Option ByteArray}

/-- The directories that are searched, in the order of the search. -/
def places (directory : Directory) : List String :=
  directory.roots.flatMap fun root =>
    (directory.embedded.map (FilePath.join root)).toList ++ [root]

theorem candidates_eq_map (directory : Directory) (name : String) :
    directory.candidates name =
      directory.places.map (FilePath.join · (directory.fileName name)) := by
  simp only [candidates, places, List.map_flatMap, List.map_append, List.map_singleton,
    Option.toList_map, List.map_map, Function.comp_def]

theorem isEntry_fileName (extended : directory.extension ≠ "")
    (flat : '/' ∉ directory.extension.toList) (plain : ¬Strays name) :
    FilePath.IsEntry (directory.fileName name) := by
  obtain ⟨filled, noSlash, -, -⟩ : name ≠ "" ∧ '/' ∉ name.toList ∧ '\\' ∉ name.toList ∧
      ¬['.', '.'] <:+: name.toList := by simpa [Strays, not_or] using plain
  have long : 2 < (directory.fileName name).toList.length := by
    have nameLong := List.length_pos_iff.2 (mt String.toList_eq_nil_iff.1 filled)
    have extensionLong := List.length_pos_iff.2 (mt String.toList_eq_nil_iff.1 extended)
    simp only [fileName, suffix, String.toList_append, List.length_append]
    change 2 < _ + (1 + _)
    omega
  have different {text : String} (short : text.toList.length ≤ 2) :
      directory.fileName name ≠ text := by
    rintro rfl
    omega
  refine ⟨?_, different (by decide), different (by decide), different (by decide)⟩
  simp [fileName, suffix, noSlash, flat]

/-- The first of the paths at which there is a file, and what the file holds. -/
structure FirstFile (tree : FileTree) (paths : List String) (path : String)
    (content : Option ByteArray) : Prop where
  first : ∃ before after, paths = before ++ path :: after ∧ ∀ other ∈ before, ¬tree.isFile other
  found : tree.resolve path = .ok (.file content)

/-- What the file at a path is read as: a document, or the definition of the name is malformed. -/
inductive ReadAs (name path : String) : Option ByteArray → Except SchemaError Json → Prop
  | denied : ReadAs name path none
      (.error (.malformedDefinition name (.unreadable path FileTree.Fault.denied.message)))
  | garbled {bytes : ByteArray} (garbled : String.fromUTF8? bytes = none) :
      ReadAs name path (some bytes)
        (.error (.malformedDefinition name (.unreadable path FileTree.Fault.notUtf8.message)))
  | invalid {bytes : ByteArray} {text reason : String}
      (legible : String.fromUTF8? bytes = some text) (invalid : Json.parse text = .error reason) :
      ReadAs name path (some bytes)
        (.error (.malformedDefinition name (.invalidJson path reason)))
  | document {bytes : ByteArray} {text : String} {document : Json}
      (legible : String.fromUTF8? bytes = some text) (valid : Json.parse text = .ok document) :
      ReadAs name path (some bytes) (.ok document)

theorem readAs_readDocument (found : directory.tree.resolve path = .ok (.file content)) :
    ReadAs name path content (directory.readDocument name path) := by
  unfold readDocument FileTree.readText
  simp only [found, bind, Except.bind]
  cases content with
  | none => exact .denied
  | some bytes =>
    dsimp only
    cases legible : String.fromUTF8? bytes with
    | none => exact .garbled legible
    | some text =>
      change ReadAs name path (some bytes) ((Json.parse text).mapError _)
      cases valid : Json.parse text with
      | error reason => exact .invalid legible valid
      | ok document => exact .document legible valid

theorem fetch_of_strays (strays : Strays name) :
    directory.fetch name = .error (.malformedDefinition name .unsafeName) := by
  have refused : isPlainName name = false := by
    rw [← Bool.not_eq_true, isPlainName_iff]
    exact not_not_intro strays
  simp [fetch, refused]

theorem fetch_eq_none_iff (plain : ¬Strays name) :
    directory.fetch name = .ok none ↔
      ∀ path ∈ directory.candidates name, ¬directory.tree.isFile path := by
  rw [← List.find?_eq_none, fetch, if_pos (isPlainName_iff.2 plain)]
  split
  · next path found => simp [found, map_eq_ok]
  · next none => simp [none]

theorem fetch_of_firstFile (plain : ¬Strays name)
    (first : FirstFile directory.tree (directory.candidates name) path content) :
    ∃ result, ReadAs name path content result ∧ directory.fetch name = result.map some := by
  obtain ⟨⟨before, after, listed, none⟩, found⟩ := first
  have chosen : (directory.candidates name).find? directory.tree.isFile = some path := by
    have isFile := FileTree.isFile_iff.2 ⟨content, found⟩
    have skipped : before.find? directory.tree.isFile = Option.none := List.find?_eq_none.2 none
    rw [listed, List.find?_append, skipped, Option.none_or, List.find?_cons_of_pos isFile]
  refine ⟨_, readAs_readDocument found, ?_⟩
  rw [fetch, if_pos (isPlainName_iff.2 plain), chosen]

/-- The same directory of another tree. -/
def inTree (directory : Directory) (tree : FileTree) : Directory := { directory with tree }

/-- A search sees of the tree only what stands directly in the places that are searched. -/
theorem fetch_inTree {other : FileTree} (extended : directory.extension ≠ "")
    (flat : '/' ∉ directory.extension.toList)
    (same : ∀ place ∈ directory.places, directory.tree.SameIn other place) (name : String) :
    (directory.inTree other).fetch name = directory.fetch name := by
  by_cases strays : Strays name
  · rw [fetch_of_strays strays, fetch_of_strays strays]
  have resolved : ∀ path ∈ directory.candidates name,
      other.resolve path = directory.tree.resolve path := by
    intro path mem
    rw [candidates_eq_map] at mem
    obtain ⟨place, searched, rfl⟩ := List.mem_map.1 mem
    exact (same place searched).resolve_join (isEntry_fileName extended flat strays)
  have chosen : (directory.candidates name).find? other.isFile =
      (directory.candidates name).find? directory.tree.isFile := by
    apply List.find?_congr
    intro path mem
    rw [FileTree.isFile, FileTree.isFile, resolved path mem]
  have plain := isPlainName_iff.2 strays
  have chosen' : ((directory.inTree other).candidates name).find?
      (directory.inTree other).tree.isFile =
        (directory.candidates name).find? directory.tree.isFile := chosen
  rw [fetch, fetch, if_pos plain, if_pos plain, chosen']
  cases found : (directory.candidates name).find? directory.tree.isFile with
  | none => rfl
  | some path =>
    have mem := List.mem_of_find?_eq_some found
    have text : other.readText path = directory.tree.readText path := by
      rw [FileTree.readText, FileTree.readText, resolved path mem]
    dsimp only [readDocument, inTree]
    rw [text]

end Directory

end DocModel
