import ScriptView.Glob.Selection
import ScriptView.Memory.Tree

/-!
# The host over a tree in memory

Paths lead from the current directory, which need not exist. Nothing happens
when something is copied or moved to where it is, whether it exists or not.
-/

namespace ScriptView.Memory

/-- The host over a tree in memory with a current directory. -/
def host (current : Location) : Host Tree where
  isCaseSensitive := true
  currentDirectory := current.text
  read path tree := tree.read (current.resolve path)
  list path tree := tree.list (current.resolve path)
  hasFile path tree := tree.isFile (current.resolve path)
  hasDirectory path tree := tree.isDirectory (current.resolve path)
  realPath path _ := .ok (current.resolve path).text
  glob patterns tree :=
    let selection := (Glob.Selection.ofPatterns patterns).map fun pattern =>
      (current.resolve pattern).text
    tree.filePaths.filter selection.selects
  write path text := change (·.addFile (current.resolve path) text)
  makeDirectory path := change fun tree =>
    let location := current.resolve path
    if tree.isFile location then .error (.alreadyExists location.text)
    else tree.addDirectories location
  delete path := change (·.remove (current.resolve path))
  move source target :=
    let source := current.resolve source
    let target := current.resolve target
    if source = target then pure () else Memory.move source target
  copy source target :=
    let source := current.resolve source
    let target := current.resolve target
    if source = target then pure () else Memory.copy source target

/-- A tree with files at given paths, written in order. -/
def seed (files : List (String × String)) : Except Error Tree :=
  files.foldlM (fun tree (path, text) => tree.addFile (Location.root.resolve path) text) .empty

/-- A tree with a directory at the current location, if no file is in the way. -/
def withCurrent (tree : Tree) (current : Location) : Tree :=
  match tree.addDirectories current with
  | .ok changed => changed
  | .error _ => tree

end ScriptView.Memory
