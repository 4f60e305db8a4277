import ScriptView.Error
import ScriptView.Host
import ScriptView.Proofs.Memory.Nested.Node

/-!
# Operations on nested trees

What reading, listing, writing, making directories and deleting mean where files and
directories are nested: the location is followed down from the root, and what is
found there, or on the way to it, decides.
-/

namespace ScriptView.Memory

/-! ## Trees -/

/-- The entries of a root. The root itself is a directory at all times. -/
structure Nested where
  entries : Nested.Node.Row
  ordered : (Nested.Node.directory entries).Ordered

namespace Nested

/-- The tree with a root and nothing else. -/
def empty : Nested where
  entries := []
  ordered := .directory .nil nofun

/-- The root of a tree, with all that is in it. -/
def root (tree : Nested) : Option Node :=
  some (.directory tree.entries)

/-- What is at a location. -/
def node? (tree : Nested) (location : Location) : Option Node :=
  Node.get? location tree.root

/-- What is told of a location. -/
def sight (tree : Nested) (location : Location) : Sight :=
  Node.sight (tree.node? location)

theorem ordered_root (tree : Nested) : ∀ node ∈ tree.root, node.Ordered := by
  intro node isRoot
  cases isRoot
  exact tree.ordered

/-- Put a node at a location, or take away the one that is there. At the root, what
the root holds is put in the place of what it held. -/
def put (tree : Nested) (location : Location) (new : Option Node)
    (orderedNew : ∀ node ∈ new, node.Ordered) : Nested where
  entries := Node.inside (Node.set new location tree.root)
  ordered := Node.ordered_inside (Node.ordered_set tree.ordered_root orderedNew location)

/-- What is put at a location is found there, with directories above it, and what
lies elsewhere stays. -/
theorem sight_put (tree : Nested) (location : Location) (new : Option Node)
    (orderedNew : ∀ node ∈ new, node.Ordered) (place : Location) :
    (tree.put location new orderedNew).sight place =
      if place = .root then .directory
      else if location <+: place then Node.sight (Node.get? (place.drop location.length) new)
      else if place <+: location then .directory
      else tree.sight place := by
  cases place with
  | nil => rfl
  | cons name rest =>
      have notRoot : name :: rest ≠ Location.root := List.cons_ne_nil name rest
      rw [if_neg notRoot]
      exact Node.sight_set new location tree.root (name :: rest)

/-! ## Operations -/

/-- The file that is in the way of what would lie below it. -/
def fileAbove? (tree : Nested) (location : Location) : Option Location :=
  (Location.upward location.dropLast).find? fun place => (tree.sight place).text?.isSome

/-- Write a file and make the missing directories above it. -/
def write (tree : Nested) (location : Location) (text : String) : Except Error Nested :=
  match tree.node? location with
  | some (.directory _) => .error (.notAFile location.text)
  | _ =>
      match tree.fileAbove? location with
      | some file => .error (.notAFile file.text)
      | none => .ok (tree.put location (some (.file text)) (Node.ordered_file text))

/-- Make a directory and the missing ones above it. -/
def makeDirectory (tree : Nested) (location : Location) : Except Error Nested :=
  match tree.node? location with
  | some (.file _) => .error (.alreadyExists location.text)
  | some (.directory _) => .ok tree
  | none =>
      match tree.fileAbove? location with
      | some file => .error (.notAFile file.text)
      | none => .ok (tree.put location (some (.directory [])) Node.ordered_emptyDirectory)

/-- Take away what is at a location, with all that is in it. Of the root, only what
is in it is taken away. -/
def delete (tree : Nested) (location : Location) : Except Error Nested :=
  match tree.node? location with
  | some _ => .ok (tree.put location none nofun)
  | none => .error (.fileNotFound location.text)

/-- The text of a file. -/
def read (tree : Nested) (location : Location) : Except Error String :=
  match tree.node? location with
  | some (.file text) => .ok text
  | _ => .error (.fileNotFound location.text)

/-- What is told of an entry of a directory. -/
def entryIn (directory : Location) (entry : Name × Node) : Entry where
  path := Location.text (directory ++ [entry.1])
  isFile := (Node.sight (some entry.2)).text?.isSome
  isDirectory := (Node.sight (some entry.2)).isDirectory

/-- The entries of a directory, in the order of their names. -/
def list (tree : Nested) (location : Location) : Except Error (List Entry) :=
  match tree.node? location with
  | some (.directory row) => .ok (row.map (entryIn location))
  | _ => .error (.directoryNotFound location.text)

end Nested

end ScriptView.Memory
