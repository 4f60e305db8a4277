import ScriptView.Proofs.Memory.Closed

/-!
# Entries of a tree in memory

A flat tree has no directories that hold anything. What a directory lists are the
places of the whole tree that have it for a parent, each once and in the order of
their written forms.
-/

namespace ScriptView

namespace Memory.Tree

variable {tree : Tree} {directory location : Location}

/-- What is told about a place that is listed. -/
def entryAt (tree : Tree) (location : Location) : Entry where
  path := location.text
  isFile := tree.isFile location
  isDirectory := tree.isDirectory location

theorem mem_places :
    location ∈ tree.places ↔ tree.isDirectory location = true ∨ tree.isFile location = true := by
  simp [places, isDirectory, isFile]

theorem ordered_places (tree : Tree) :
    tree.places.Pairwise fun first second => Location.order first second = .lt :=
  Std.ExtTreeSet.ordered_toList

/-- The places that a directory lists. -/
def within (tree : Tree) (directory : Location) : List Location :=
  tree.places.filter fun location => location.parent? == some directory

theorem entries_eq_map (tree : Tree) (directory : Location) :
    tree.entries directory = (tree.within directory).map tree.entryAt := rfl

theorem mem_within :
    location ∈ tree.within directory ↔
      (∃ name, location = directory ++ [name]) ∧
        (tree.isDirectory location = true ∨ tree.isFile location = true) := by
  rw [within, List.mem_filter, mem_places, beq_iff_eq, Location.parent?_eq_some, and_comm]

theorem ordered_within (tree : Tree) (directory : Location) :
    (tree.within directory).Pairwise fun first second => Location.order first second = .lt :=
  (ordered_places tree).filter _

/-- No directory lists a path twice. -/
theorem nodup_paths (tree : Tree) (directory : Location) :
    ((tree.entries directory).map Entry.path).Nodup := by
  rw [entries_eq_map, List.map_map]
  apply (ordered_within tree directory).map
  intro first second less same
  rw [Location.text_injective same, Location.order_self] at less
  contradiction

end Memory.Tree

end ScriptView
