import ScriptView.Disk.Search
import ScriptView.Host

/-!
# The host over a disk

Relative paths are joined to the current directory, which is a text and need not
exist. Writing, moving and copying make the directory that the target is in,
and keep it if they fail afterwards. A fault is reported for the path as it was
resolved; of two paths, for that of the source.
-/

namespace ScriptView.Disk

/-- Run an operation, with its faults turned into errors. -/
def run {α : Type} (error : Fault → Error) (call : Call α) : Action Node α := fun top =>
  match call top with
  | .ok value changed => .ok value changed
  | .error fault changed => .error (error fault) changed

/-- The answer to a question, with its faults turned into errors. -/
def answer {α : Type} (error : Fault → Error) : Except Fault α → Except Error α
  | .ok value => .ok value
  | .error fault => .error (error fault)

/-- Make the directory that the end of a path is in. -/
def makeParent (path : String) : Action Node Unit :=
  match parent? path with
  | some directory => run (.ofDirectoryFault directory) (makeDirectories directory)
  | none => return ()

/-- Delete a file, a link or a directory with all that is in it. -/
def delete (path : String) : Call Unit := do
  let (_, node) ← ask (nodeItself · path)
  if node.isDirectory then removeTree path else removeFile path

/-- What is told about something that a directory holds. -/
def entry (top : Node) (directory name : String) (node : Node) : Entry :=
  let path := join directory name
  { path
    isFile := if node.isLink then leadsToFile top path else node.isFile
    isDirectory := if node.isLink then leadsToDirectory top path else node.isDirectory
    isLink := node.isLink }

/-- The entries of a directory in the order of their names. -/
def list (top : Node) (directory : String) : Except Fault (List Entry) := do
  let entries ← readDirectory top directory
  return entries.map fun (name, node) => entry top directory name node

/-- Copy a file or a directory, links followed. -/
def copy (source destination : String) : Action Node Unit := do
  let (_, node) ← run (.ofFileFault source) (ask (nodeAt · source))
  if node.isDirectory then
    run (.ofFileFault source) (copyTree source destination)
  else
    makeParent destination
    run (.ofFileFault source) (copyFile source destination)

/-- The host over a disk with a current directory, which is an absolute path. -/
def host (current : String) : Host Node where
  isCaseSensitive := true
  currentDirectory := current
  read path top :=
    let path := join current path
    answer (.ofFileFault path) (readText top path)
  list path top :=
    let path := join current path
    answer (.ofDirectoryFault path) (list top path)
  hasFile path top := leadsToFile top (join current path)
  hasDirectory path top := leadsToDirectory top (join current path)
  realPath path top :=
    let path := join current path
    answer (.ofFileFault path) (realPath top path)
  glob patterns top := glob top current patterns
  write path text := do
    let path := join current path
    makeParent path
    run (.ofFileFault path) (writeBytes path text.toUTF8)
  makeDirectory path :=
    let path := join current path
    run (.ofDirectoryFault path) (makeDirectories path)
  delete path :=
    let path := join current path
    run (.ofFileFault path) (delete path)
  move source destination := do
    let source := join current source
    let destination := join current destination
    makeParent destination
    run (.ofFileFault source) (rename source destination)
  copy source destination := copy (join current source) (join current destination)

end ScriptView.Disk
