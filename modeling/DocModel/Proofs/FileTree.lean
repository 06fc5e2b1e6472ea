import DocModel.FileTree
import DocModel.Proofs.Except

namespace DocModel

namespace FilePath

/-- A name under which a directory holds something of its own: one part of a path, and neither the
directory itself nor the one above it. -/
structure IsEntry (name : String) : Prop where
  flat : '/' ∉ name.toList
  filled : name ≠ ""
  ne_here : name ≠ "."
  ne_above : name ≠ ".."

theorem parts_eq_singleton {path : List Char} (flat : '/' ∉ path) : parts path = [path] := by
  induction path with
  | nil => rfl
  | cons c rest ih =>
    obtain ⟨first, flat⟩ := not_or.1 (mt List.mem_cons.2 flat)
    simp [parts, ih flat, Ne.symm first]

theorem split_eq_singleton {file : String} (flat : '/' ∉ file.toList) : split file = [file] := by
  simp [split, parts_eq_singleton flat]

theorem split_append_slash (directory file : String) :
    split (directory ++ "/" ++ file) = split directory ++ split file := by
  have chars : (directory ++ "/" ++ file).toList = directory.toList ++ '/' :: file.toList := by
    simp
  simp only [split, chars, parts_append_slash, List.map_append]

theorem isAbsolute_append {directory : String} (filled : directory ≠ "") (path : String) :
    isAbsolute (directory ++ path) = isAbsolute directory := by
  obtain ⟨c, rest, chars⟩ := List.exists_cons_of_ne_nil (mt String.toList_eq_nil_iff.1 filled)
  simp only [isAbsolute, String.toList_append, chars, List.cons_append, List.head?_cons]

theorem isAbsolute_of_flat {file : String} (flat : '/' ∉ file.toList) :
    isAbsolute file = false := by
  unfold isAbsolute
  cases chars : file.toList with
  | nil => rfl
  | cons c rest =>
    have other : c ≠ '/' := fun same => flat (by simp [chars, same])
    simp [other]

/-- What a file name adds to a path: nothing stands before it, a slash is there already, or one is
put in. -/
theorem join_cases {file : String} (flat : '/' ∉ file.toList) (place : String) :
    (place = "" ∧ join place file = file) ∨
      (∃ before, place = before ++ "/" ∧ join place file = before ++ "/" ++ file) ∨
      (place ≠ "" ∧ join place file = place ++ "/" ++ file) := by
  unfold join
  simp only [isAbsolute_of_flat flat, Bool.false_eq_true, false_or, String.isEmpty_iff]
  split
  · next empty => exact .inl ⟨empty, rfl⟩
  · next filled =>
    split
    · next slash =>
      obtain ⟨before, ends⟩ := List.getLast?_eq_some_iff.1 slash
      have spelled : place = String.ofList before ++ "/" := String.toList_inj.1 (by simp [ends])
      exact .inr (.inl ⟨_, spelled, by rw [spelled]⟩)
    · exact .inr (.inr ⟨filled, rfl⟩)

end FilePath

namespace FileTree

variable {tree other : FileTree} {place file : String} {here : List String} {node : Node}

theorem walk_append (here first second : List String) :
    tree.walk here (first ++ second) = tree.walk here first >>= (tree.walk · second) := by
  induction first generalizing here with
  | nil => rfl
  | cons part rest ih =>
    simp only [List.cons_append, walk]
    cases tree.node? here with
    | none => rfl
    | some node =>
      cases node with
      | file content => rfl
      | directory =>
        dsimp only
        split
        · rfl
        · exact ih _

theorem walk_empty_bind (here : List String) (part : String) :
    tree.walk here [""] >>= (tree.walk · [part]) = tree.walk here [part] := by
  cases stands : tree.node? here with
  | none => simp [walk, stands, bind, Except.bind]
  | some node => cases node <;> simp [walk, stands, step, bind, Except.bind]

theorem walk_entry (entry : FilePath.IsEntry file) (stands : tree.node? here = some .directory)
    (short : file.utf8ByteSize ≤ longestPart) : tree.walk here [file] = .ok (here ++ [file]) := by
  have led : step here file = here ++ [file] := by
    simp [step, entry.filled, entry.ne_here, entry.ne_above]
  simp [walk, stands, Nat.not_lt.2 short, led]

theorem walk_entry_eq_ok {there : List String} (entry : FilePath.IsEntry file)
    (led : tree.walk here [file] = .ok there) :
    tree.node? here = some .directory ∧ there = here ++ [file] := by
  cases stands : tree.node? here with
  | none => simp [walk, stands] at led
  | some node =>
    cases node with
    | file content => simp [walk, stands] at led
    | directory =>
      by_cases short : file.utf8ByteSize ≤ longestPart
      · rw [walk_entry entry stands short] at led
        exact ⟨rfl, (Except.ok.inj led).symm⟩
      · simp [walk, stands, Nat.lt_of_not_le short] at led

/-- Where the parts of a path lead. -/
def follow (tree : FileTree) (path : String) : Except Fault (List String) :=
  tree.walk (tree.start path) (FilePath.split path)

theorem resolve_eq (path : String) :
    tree.resolve path =
      if path.toList.contains '\x00' then .error .zeroByte
      else if path.isEmpty then .error .notFound
      else if longestPath < path.utf8ByteSize then .error .nameTooLong
      else
        match tree.follow path with
        | .error fault => .error fault
        | .ok there =>
          match tree.node? there with
          | some node => .ok node
          | none => .error .notFound := rfl

theorem follow_join (flat : '/' ∉ file.toList) (place : String) :
    tree.follow (FilePath.join place file) = tree.follow place >>= (tree.walk · [file]) := by
  have single := FilePath.split_eq_singleton flat
  obtain ⟨rfl, joined⟩ | ⟨before, rfl, joined⟩ | ⟨filled, joined⟩ := FilePath.join_cases flat place
  · have same : tree.start file = tree.start "" := by
      rw [start, FilePath.isAbsolute_of_flat flat]
      rfl
    rw [joined, follow, single, same]
    exact (walk_empty_bind _ _).symm
  · have same : tree.start (before ++ "/" ++ file) = tree.start (before ++ "/") := by
      rw [start, FilePath.isAbsolute_append (by simp), start]
    have split : FilePath.split (before ++ "/") = FilePath.split before ++ [""] := by
      have := FilePath.split_append_slash before ""
      rwa [String.append_empty] at this
    rw [joined, follow, follow, FilePath.split_append_slash, single, same, split, walk_append,
      walk_append]
    cases tree.walk (tree.start (before ++ "/")) (FilePath.split before) with
    | error fault => rfl
    | ok there => exact (walk_empty_bind there file).symm
  · have same : tree.start (place ++ "/" ++ file) = tree.start place := by
      rw [start, String.append_assoc, FilePath.isAbsolute_append filled, start]
    rw [joined, follow, FilePath.split_append_slash, single, same, walk_append]
    rfl

/-- A file found by its name in a directory is an entry of that directory. -/
theorem entry_of_resolve_join (entry : FilePath.IsEntry file)
    (found : tree.resolve (FilePath.join place file) = .ok node) :
    ∃ here, tree.follow place = .ok here ∧ tree.node? here = some .directory ∧
      tree.node? (here ++ [file]) = some node := by
  obtain ⟨there, led, stands⟩ := walk_of_resolve found
  change tree.follow _ = _ at led
  rw [follow_join entry.flat] at led
  obtain ⟨here, leads, led⟩ := bind_eq_ok.1 led
  obtain ⟨directory, rfl⟩ := walk_entry_eq_ok entry led
  exact ⟨here, leads, directory, stands⟩

/-- A path leads to one place in both trees, and what stands there and directly in it is the same in
both. -/
structure SameIn (tree other : FileTree) (place : String) : Prop where
  follow : other.follow place = tree.follow place
  node : ∀ here, tree.follow place = .ok here → other.node? here = tree.node? here
  entry : ∀ here, tree.follow place = .ok here →
    ∀ file, other.node? (here ++ [file]) = tree.node? (here ++ [file])

theorem SameIn.follow_join (same : tree.SameIn other place) (flat : '/' ∉ file.toList) :
    other.follow (FilePath.join place file) = tree.follow (FilePath.join place file) := by
  rw [FileTree.follow_join flat, FileTree.follow_join flat, same.follow]
  cases leads : tree.follow place with
  | error fault => rfl
  | ok here => simp only [bind, Except.bind, walk, same.node here leads]

theorem SameIn.resolve_join (same : tree.SameIn other place) (entry : FilePath.IsEntry file) :
    other.resolve (FilePath.join place file) = tree.resolve (FilePath.join place file) := by
  have led := same.follow_join entry.flat
  have stands : ∀ there, tree.follow (FilePath.join place file) = .ok there →
      other.node? there = tree.node? there := by
    intro there ends
    rw [FileTree.follow_join entry.flat] at ends
    obtain ⟨here, leads, ends⟩ := bind_eq_ok.1 ends
    obtain ⟨-, rfl⟩ := walk_entry_eq_ok entry ends
    exact same.entry here leads file
  rw [resolve_eq, resolve_eq, led]
  cases ends : tree.follow (FilePath.join place file) with
  | error fault => rfl
  | ok there => simp only [stands there ends]

theorem node?_put_of_ne {names there : List String} (apart : there ≠ names) :
    (tree.put names node).node? there = tree.node? there := by
  have skipped : List.lookup there (tree.entries.filter (·.1 != names)) =
      List.lookup there tree.entries := by
    induction tree.entries with
    | nil => rfl
    | cons entry rest ih =>
      obtain ⟨stands, kept⟩ := entry
      by_cases taken : stands = names
      · have other : (there == stands) = false := by simpa [taken] using apart
        simp [taken, List.lookup_cons, ih, taken ▸ other]
      · simp [taken, List.lookup_cons, ih]
  have last : (there == names) = false := by simpa using apart
  simp [node?, put, List.lookup_append, skipped, List.lookup_cons, last]

/-- What is put neither at a place nor directly in it leaves the place as it is, if the way to it is
left open. -/
theorem SameIn.put {names : List String}
    (open_ : (tree.put names node).follow place = tree.follow place)
    (apart : ∀ here, tree.follow place = .ok here → here ≠ names ∧ ∀ file, here ++ [file] ≠ names) :
    tree.SameIn (tree.put names node) place where
  follow := open_
  node here leads := node?_put_of_ne (apart here leads).1
  entry here leads file := node?_put_of_ne ((apart here leads).2 file)

theorem isFile_iff {path : String} :
    tree.isFile path ↔ ∃ content, tree.resolve path = .ok (.file content) := by
  unfold isFile
  split
  · next found => simp [found]
  · next none => simpa using none

end FileTree

end DocModel
