import ScriptView.Host
import ScriptView.Location
import Std.Data.ExtTreeMap
import Std.Data.ExtTreeSet

/-!
# Trees in memory

A tree in memory is flat: a map from the locations of files to their texts, and
the set of the locations that are directories. Both are in the order in which
locations are written, and every operation that visits many places visits them
in that order.
-/

namespace ScriptView.Memory

/-- The files and directories of a tree. -/
structure Tree where
  files : Std.ExtTreeMap Location String Location.order := ∅
  directories : Std.ExtTreeSet Location Location.order := ∅

namespace Tree

/-- The tree with a root and nothing else. -/
def empty : Tree where
  directories := (∅ : Std.ExtTreeSet Location Location.order).insert .root

/-- The text of the file at a location. -/
def text? (tree : Tree) (location : Location) : Option String :=
  tree.files[location]?

/-- Whether a file is at a location. -/
def isFile (tree : Tree) (location : Location) : Bool :=
  tree.files.contains location

/-- Whether a directory is at a location. -/
def isDirectory (tree : Tree) (location : Location) : Bool :=
  tree.directories.contains location

/-- The places in front of the first directory in a row of places that leads
upward. A file among them is in the way. -/
def missing (tree : Tree) : List Location → Except Error (List Location)
  | [] => .ok []
  | location :: above =>
      if tree.isDirectory location then .ok []
      else if tree.isFile location then .error (.notAFile location.text)
      else (tree.missing above).map (location :: ·)

/-- Make a directory and the missing ones above it. Nothing is made if a file is
in the way. -/
def addDirectories (tree : Tree) (location : Location) : Except Error Tree :=
  (tree.missing location.upward).map fun places =>
    { tree with directories := tree.directories.insertMany places }

/-- Write a file and make the missing directories above it. -/
def addFile (tree : Tree) (location : Location) (text : String) : Except Error Tree :=
  if tree.isDirectory location then .error (.notAFile location.text)
  else
    (tree.addDirectories location.dropLast).map fun tree =>
      { tree with files := tree.files.insert location text }

/-- The directories at or below a location. -/
def directoriesFrom (tree : Tree) (top : Location) : List Location :=
  tree.directories.toList.filter (·.isAtOrBelow top)

/-- The files below a location. -/
def filesBelow (tree : Tree) (top : Location) : List Location :=
  tree.files.keys.filter (·.isBelow top)

/-- Remove a file, or a directory with all that is below it. The root is emptied
but stays. -/
def remove (tree : Tree) (location : Location) : Except Error Tree :=
  if tree.isFile location then
    .ok { tree with files := tree.files.erase location }
  else if tree.isDirectory location then
    .ok {
      files := tree.files.filter fun place _ => !place.isBelow location
      directories := tree.directories.filter fun place =>
        place == .root || !place.isAtOrBelow location }
  else .error (.fileNotFound location.text)

/-- The locations of all files and directories, in order. -/
def places (tree : Tree) : List Location :=
  (tree.directories.insertMany tree.files.keys).toList

/-- The locations directly in a directory, as entries in the order of their
written forms. -/
def entries (tree : Tree) (directory : Location) : List Entry :=
  (tree.places.filter fun location => location.parent? == some directory).map fun location =>
    { path := location.text
      isFile := tree.isFile location
      isDirectory := tree.isDirectory location }

/-- The entries of a directory. -/
def list (tree : Tree) (location : Location) : Except Error (List Entry) :=
  if tree.isDirectory location then .ok (tree.entries location)
  else .error (.directoryNotFound location.text)

/-- The text of a file. -/
def read (tree : Tree) (location : Location) : Except Error String :=
  match tree.text? location with
  | some text => .ok text
  | none => .error (.fileNotFound location.text)

/-- A bound for how deep directories nest. -/
def depth (tree : Tree) : Nat :=
  tree.directories.size + 1

/-- The written forms of the locations of all files. -/
def filePaths (tree : Tree) : List String :=
  tree.files.keys.map Location.text

/-! ## What is where

A tree is known by the text and the directory that it has at each location, and
every operation is known by what it does to these. -/

@[ext] theorem ext_view {left right : Tree}
    (texts : ∀ location, left.text? location = right.text? location)
    (directories : ∀ location, left.isDirectory location = right.isDirectory location) :
    left = right := by
  obtain ⟨leftFiles, leftDirectories⟩ := left
  obtain ⟨rightFiles, rightDirectories⟩ := right
  have sameFiles : leftFiles = rightFiles := Std.ExtTreeMap.ext_getElem? texts
  have sameDirectories : leftDirectories = rightDirectories :=
    Std.ExtTreeSet.ext_contains directories
  rw [sameFiles, sameDirectories]

/-- A file is where a text is. -/
theorem isFile_eq_isSome (tree : Tree) (location : Location) :
    tree.isFile location = (tree.text? location).isSome :=
  Std.ExtTreeMap.contains_eq_isSome_getElem?

@[simp] theorem text?_empty (location : Location) : empty.text? location = none :=
  Std.ExtTreeMap.getElem?_empty

@[simp] theorem isDirectory_empty (location : Location) :
    empty.isDirectory location = decide (location = .root) := by
  rw [Bool.eq_iff_iff]
  simp [empty, isDirectory, eq_comm (a := location)]

/-- Making directories leaves the files alone. -/
theorem text?_addDirectories {tree made : Tree} {location : Location}
    (added : tree.addDirectories location = .ok made) (place : Location) :
    made.text? place = tree.text? place := by
  rw [addDirectories] at added
  cases found : tree.missing location.upward with
  | error => simp [found, Except.map] at added
  | ok => rw [found] at added; cases added; rfl

/-- The directories that are made are the missing ones. -/
theorem isDirectory_addDirectories {tree made : Tree} {location : Location}
    {places : List Location} (found : tree.missing location.upward = .ok places)
    (added : tree.addDirectories location = .ok made) (place : Location) :
    made.isDirectory place = (tree.isDirectory place || places.contains place) := by
  rw [addDirectories, found] at added
  cases added
  exact Std.ExtTreeSet.contains_insertMany_list

/-- Writing a file changes the text at its location and no other. -/
theorem text?_addFile {tree written : Tree} {location : Location} {text : String}
    (added : tree.addFile location text = .ok written) (place : Location) :
    written.text? place = if place = location then some text else tree.text? place := by
  rw [addFile] at added
  split at added
  · simp at added
  · cases directories : tree.addDirectories location.dropLast with
    | error => simp [directories, Except.map] at added
    | ok made =>
      rw [directories] at added
      cases added
      have kept := text?_addDirectories directories place
      simp only [text?] at kept
      simp [text?, Std.ExtTreeMap.getElem?_insert, kept, eq_comm (a := place)]

/-- Removing a file takes its text away; removing a directory takes away the
texts below it. -/
theorem text?_remove {tree left : Tree} {location : Location}
    (removed : tree.remove location = .ok left) (place : Location) :
    left.text? place =
      if (if tree.isFile location then place == location else place.isBelow location) then none
      else tree.text? place := by
  rw [remove] at removed
  split at removed
  · next file =>
    cases removed
    simp [text?, file, Std.ExtTreeMap.getElem?_erase, eq_comm (a := place)]
  · next file =>
    split at removed
    · cases removed
      simp only [text?, file, Std.ExtTreeMap.getElem?_filter', Bool.false_eq_true, if_false]
      cases tree.files[place]? <;> cases place.isBelow location <;> simp [Option.filter]
    · simp at removed

/-- Removing a file leaves the directories alone; removing a directory takes
away the ones at or below it, apart from the root. -/
theorem isDirectory_remove {tree left : Tree} {location : Location}
    (removed : tree.remove location = .ok left) (place : Location) :
    left.isDirectory place =
      (tree.isDirectory place &&
        (tree.isFile location || place == .root || !place.isAtOrBelow location)) := by
  rw [remove] at removed
  split at removed
  · next file =>
    cases removed
    simp [isDirectory, file]
  · next file =>
    split at removed
    · cases removed
      rw [Bool.eq_iff_iff]
      simp [isDirectory, file, Std.ExtTreeSet.mem_filter]
    · simp at removed

end Tree

/-- Run a change of the tree that either happens or fails without a trace. -/
def change (step : Tree → Except Error Tree) : Action Tree Unit := fun tree =>
  match step tree with
  | .ok changed => .ok () changed
  | .error error => .error error tree

/-- Copy one file to its new place. -/
def copyFile (source target location : Location) : Action Tree Unit :=
  change fun tree =>
    match tree.text? location with
    | some text => tree.addFile (location.rebase source target) text
    | none => .ok tree

/-- Copy a file, or a directory with all that is below it: first every
directory, then every file with the text that it has by then. A failure midway
leaves what was copied before it. A directory is not copied into itself. -/
def copy (source target : Location) : Action Tree Unit := do
  let tree ← get
  if target.isBelow source then
    throw (.io (.copyIntoItself source.text target.text))
  else if tree.isFile source then
    copyFile source target source
  else if tree.isDirectory source then
    (tree.directoriesFrom source).forM fun location =>
      change (·.addDirectories (location.rebase source target))
    (tree.filesBelow source).forM (copyFile source target)
  else
    throw (.fileNotFound source.text)

/-- Copy something and remove it where it was. -/
def move (source target : Location) : Action Tree Unit := do
  copy source target
  change (·.remove source)

end ScriptView.Memory
