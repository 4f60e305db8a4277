import ScriptView.Disk.Call
import ScriptView.Glob.Literal
import ScriptView.Glob.Selection
import Std.Data.TreeSet

/-!
# Searching a disk

Patterns are matched against the paths of files. Only the directories below the
literal part of a pattern are looked through, and a pattern without special
characters only asks for one file. Links are followed, except a link into a
directory that the search is in already.
-/

namespace ScriptView.Disk

/-- Whether a link leads back to a directory that the directory it is in lies
in. -/
def leadsBack (top : Node) (link directory : String) : Bool :=
  match nodeAt top link, nodeAt top directory with
  | .ok (destination, _), .ok (here, _) => destination.isPrefixOf here
  | _, _ => false

/-- Whether an entry of a directory, found at a path, counts as a file. -/
def countsAsFile (top : Node) (path : String) (node : Node) : Bool :=
  if node.isLink then leadsToFile top path else node.isFile

/-- Whether a search goes on in an entry of a directory, found at a path. -/
def isEntered (top : Node) (directory path : String) (node : Node) : Bool :=
  if node.isLink then leadsToDirectory top path && !leadsBack top path directory
  else node.isDirectory

/-- The paths of all files below a directory. A directory that cannot be read
has none. -/
def filesBelow (top : Node) (directory : String) : List String :=
  match readDirectory top directory with
  | .error _ => []
  | .ok entries =>
      entries.flatMap fun (name, node) =>
        if countsAsFile top (join directory name) node then [join directory name]
        else if isEntered top directory (join directory name) node then
          if _longer : directory.utf8ByteSize < (join directory name).utf8ByteSize ∧
              (join directory name).utf8ByteSize < pathLimit then
            filesBelow top (join directory name)
          else []
        else []
termination_by pathLimit - directory.utf8ByteSize

/-- A path with slashes in place of backslashes. -/
def withSlashes (path : String) : String :=
  String.ofList (path.toList.map fun c => if c = '\\' then '/' else c)

/-- A pattern as one for whole paths, relative to a directory. -/
def absolutePattern (directory pattern : String) : String :=
  let pattern := withSlashes pattern
  if isAbsolute pattern then pattern
  else
    let directory := (withSlashes directory).toList.reverse.dropWhile (· == '/')
    String.ofList directory.reverse ++ "/" ++ pattern

/-- The files that one pattern lets in, before any are taken out. -/
def candidates (top : Node) (current pattern : String) : List String :=
  if Glob.hasSpecial pattern then
    let literal := Glob.literalDirectory pattern
    let start := if literal = "" then current else literal
    (filesBelow top start).filter fun path => Glob.accepts pattern (withSlashes path)
  else if leadsToFile top pattern then [pattern]
  else []

/-- The paths of the files that a selection of patterns selects, each once and
in order. -/
def glob (top : Node) (current : String) (patterns : List String) : List String :=
  let selection := (Glob.Selection.ofPatterns patterns).map (absolutePattern current)
  let found := (selection.included.flatMap (candidates top current)).filter fun path =>
    !selection.excludes (withSlashes path)
  (Std.TreeSet.ofList found).toList

end ScriptView.Disk
