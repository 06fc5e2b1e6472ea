import DocModel.Cli

namespace DocModel.Cli

/-- Takes what stands at a path into the tree; a directory can be opened but not read. -/
def observe (tree : FileTree) (path : String) : IO FileTree := do
  match ← (IO.FS.readBinFile path).toBaseIO with
  | .ok content => return tree.addFile path content
  | .error (.inappropriateType none _ _) => return tree.addDirectory path
  | .error _ => return tree

/-- Runs a command line until its report rests only on paths that the tree has been shown. -/
partial def respond (arguments : List String) (stdin : ByteArray) (tree : FileTree)
    (shown : List String) : IO Report := do
  let report := run arguments tree stdin
  let unseen := (sources arguments tree report).filter (!shown.contains ·)
  if unseen.isEmpty then return report
  let tree ← (unseen.flatMap FilePath.beginnings).foldlM observe tree
  respond arguments stdin tree (shown ++ unseen)

end DocModel.Cli

open DocModel in
def main (arguments : List String) : IO UInt32 := do
  let here := ((← IO.currentDir).toString.splitOn "/").filter (!·.isEmpty)
  let stdin ← if Cli.readsInput arguments then (← IO.getStdin).readBinToEnd else pure .empty
  let report ← Cli.respond arguments stdin (.bare here) []
  IO.print report.stdout
  IO.eprint report.stderr
  return .ofNat report.exit
