namespace DocModel

namespace FilePath

/-- The parts of a path between its slashes. -/
def parts : List Char → List (List Char)
  | [] => [[]]
  | c :: rest =>
    if c = '/' then [] :: parts rest
    else
      match parts rest with
      | [] => [[c]]
      | part :: others => (c :: part) :: others

def split (path : String) : List String := (parts path.toList).map String.ofList

def isAbsolute (path : String) : Bool := path.toList.head? == some '/'

/-- The path below a directory; an absolute path stands alone. -/
def join (directory path : String) : String :=
  if isAbsolute path ∨ directory.isEmpty then path
  else if directory.toList.getLast? = some '/' then directory ++ path
  else directory ++ "/" ++ path

/-- The beginnings of a path at each of its parts, the whole path last. -/
def beginnings (path : String) : List String :=
  let parts := parts path.toList
  (List.range parts.length).map fun n => String.ofList (['/'].intercalate (parts.take (n + 1)))

theorem parts_ne_nil (path : List Char) : parts path ≠ [] := by
  cases path with
  | nil => simp [parts]
  | cons c rest =>
    simp only [parts]
    split
    · simp
    · split <;> simp

theorem parts_append_slash (path below : List Char) :
    parts (path ++ '/' :: below) = parts path ++ parts below := by
  induction path with
  | nil => simp [parts]
  | cons c rest ih =>
    simp only [List.cons_append, parts, ih]
    split
    · simp
    · cases split : parts rest with
      | nil => exact (parts_ne_nil rest split).elim
      | cons => simp

theorem takeWhile_mem_parts (path : List Char) : path.takeWhile (· != '/') ∈ parts path := by
  have head : ∃ others, parts path = path.takeWhile (· != '/') :: others := by
    induction path with
    | nil => exact ⟨[], rfl⟩
    | cons c rest ih =>
      obtain ⟨others, ih⟩ := ih
      by_cases slash : c = '/'
      · simp [parts, slash]
      · simp [parts, slash, ih]
  obtain ⟨others, head⟩ := head
  simp [head]

theorem mem_parts_join {part : List Char} {directory path : String}
    (h : part ∈ parts path.toList) : part ∈ parts (join directory path).toList := by
  unfold join
  split
  · exact h
  · split
    · next slash =>
      obtain ⟨before, ends⟩ := List.getLast?_eq_some_iff.1 slash
      rw [String.toList_append, ends, List.append_assoc, List.singleton_append, parts_append_slash]
      exact List.mem_append_right _ h
    · rw [String.toList_append, String.toList_append, List.append_assoc]
      show part ∈ parts (directory.toList ++ '/' :: path.toList)
      rw [parts_append_slash]
      exact List.mem_append_right _ h

end FilePath

/-- A file has no content to show if it may not be opened. -/
inductive FileTree.Node
  | file (content : Option ByteArray)
  | directory

/-- What stands at each path of names from the root, and the working directory. -/
structure FileTree where
  here : List String
  entries : List (List String × FileTree.Node)

inductive FileTree.Fault
  | notFound
  | notADirectory
  | isADirectory
  | notUtf8
  | zeroByte
  | nameTooLong
  | denied
deriving DecidableEq

def FileTree.Fault.message : FileTree.Fault → String
  | notFound => "No such file or directory (os error 2)"
  | notADirectory => "Not a directory (os error 20)"
  | isADirectory => "Is a directory (os error 21)"
  | notUtf8 => "stream did not contain valid UTF-8"
  | zeroByte => "file name contained an unexpected NUL byte"
  | nameTooLong => "File name too long (os error 36)"
  | denied => "Permission denied (os error 13)"

namespace FileTree

/-- What stands at a path of names; the empty path is the root. -/
def node? (tree : FileTree) (names : List String) : Option Node :=
  if names.isEmpty then some .directory else tree.entries.lookup names

/-- Where one part of a path leads from a directory. -/
def step (here : List String) (part : String) : List String :=
  if part = "" ∨ part = "." then here
  else if part = ".." then here.dropLast
  else here ++ [part]

/-- The most bytes that one part of a path may have. -/
def longestPart : Nat := 255

/-- The most bytes that a whole path may have. -/
def longestPath : Nat := 4095

/-- Follows the parts of a path from a directory on. -/
def walk (tree : FileTree) (here : List String) : List String → Except Fault (List String)
  | [] => .ok here
  | part :: rest =>
    match tree.node? here with
    | none => .error .notFound
    | some (.file _) => .error .notADirectory
    | some .directory =>
      if longestPart < part.utf8ByteSize then .error .nameTooLong
      else tree.walk (step here part) rest

/-- Where a path starts. -/
def start (tree : FileTree) (path : String) : List String :=
  if FilePath.isAbsolute path then [] else tree.here

/-- What a path leads to. -/
def resolve (tree : FileTree) (path : String) : Except Fault Node :=
  if path.toList.contains '\x00' then .error .zeroByte
  else if path.isEmpty then .error .notFound
  else if longestPath < path.utf8ByteSize then .error .nameTooLong
  else
    match tree.walk (tree.start path) (FilePath.split path) with
    | .error fault => .error fault
    | .ok there =>
      match tree.node? there with
      | some node => .ok node
      | none => .error .notFound

theorem walk_of_resolve {tree : FileTree} {path : String} {node : Node}
    (h : tree.resolve path = .ok node) :
    ∃ there,
      tree.walk (tree.start path) (FilePath.split path) = .ok there ∧
        tree.node? there = some node := by
  unfold resolve at h
  split at h
  · cases h
  · split at h
    · cases h
    · split at h
      · cases h
      · split at h
        · cases h
        · next there led =>
          split at h
          · next stands =>
            cases h
            exact ⟨there, led, stands⟩
          · cases h

def isFile (tree : FileTree) (path : String) : Bool :=
  match tree.resolve path with
  | .ok (.file _) => true
  | _ => false

/-- The text of a file. -/
def readText (tree : FileTree) (path : String) : Except Fault String := do
  match ← tree.resolve path with
  | .directory => throw .isADirectory
  | .file none => throw .denied
  | .file (some content) =>
    match String.fromUTF8? content with
    | some text => return text
    | none => throw .notUtf8

def put (tree : FileTree) (names : List String) (node : Node) : FileTree :=
  { tree with entries := tree.entries.filter (·.1 != names) ++ [(names, node)] }

/-- Makes a directory where nothing stands. -/
def ensureDirectory (tree : FileTree) (names : List String) : FileTree :=
  if (tree.node? names).isSome then tree else tree.put names .directory

/-- Makes the directories that the parts of a path pass through, and tells where they lead. -/
def makeWay (tree : FileTree) (here : List String) : List String → FileTree × List String
  | [] => (tree, here)
  | part :: rest => (tree.ensureDirectory here).makeWay (step here part) rest

def addDirectoryAt (tree : FileTree) (here parts : List String) : FileTree :=
  let (tree, names) := tree.makeWay here parts
  tree.ensureDirectory names

/-- A tree that holds nothing but its working directory. -/
def bare (here : List String) : FileTree := addDirectoryAt ⟨here, []⟩ [] here

/-- Adds a file, which may not be opened if there is no content. -/
def placeFile (tree : FileTree) (path : String) (content : Option ByteArray) : FileTree :=
  let (tree, names) := tree.makeWay (tree.start path) (FilePath.split path)
  tree.put names (.file content)

def addFile (tree : FileTree) (path : String) (content : ByteArray) : FileTree :=
  tree.placeFile path (some content)

def addDirectory (tree : FileTree) (path : String) : FileTree :=
  tree.addDirectoryAt (tree.start path) (FilePath.split path)

/-- Removes what stands at a path and everything below it. -/
def remove (tree : FileTree) (path : String) : FileTree :=
  let names := (FilePath.split path).foldl step (tree.start path)
  { tree with entries := tree.entries.filter fun entry => !names.isPrefixOf entry.1 }

/-- Every name that stands in the path of an entry. -/
def names (tree : FileTree) : List String := tree.entries.flatMap (·.1)

theorem mem_names_of_node? {tree : FileTree} {here : List String} {name : String} {node : Node}
    (h : tree.node? (here ++ [name]) = some node) : name ∈ tree.names := by
  have found : tree.entries.lookup (here ++ [name]) = some node := by
    simpa [node?] using h
  obtain ⟨before, after, split, -⟩ := List.lookup_eq_some_iff.1 found
  exact List.mem_flatMap.2 ⟨(here ++ [name], node), by simp [split], by simp⟩

theorem mem_names_of_walk {tree : FileTree} {here there parts : List String} {part : String}
    {node : Node} (led : tree.walk here parts = .ok there) (stands : tree.node? there = some node)
    (mem : part ∈ parts) (ordinary : part ≠ "" ∧ part ≠ "." ∧ part ≠ "..") : part ∈ tree.names := by
  induction parts generalizing here with
  | nil => simp at mem
  | cons first rest ih =>
    simp only [walk] at led
    split at led
    · cases led
    · cases led
    · split at led
      · cases led
      · rcases List.mem_cons.1 mem with rfl | mem
        · simp only [step, ordinary.1, ordinary.2.1, ordinary.2.2, or_self, if_false] at led
          cases rest with
          | nil =>
            cases led
            exact mem_names_of_node? stands
          | cons second rest =>
            simp only [walk] at led
            split at led
            · cases led
            · next h => exact mem_names_of_node? h
            · next h => exact mem_names_of_node? h
        · exact ih led mem

end FileTree

end DocModel
