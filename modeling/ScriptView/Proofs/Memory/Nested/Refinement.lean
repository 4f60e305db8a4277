import Mathlib.Data.List.Sort
import ScriptView.Memory.Host
import ScriptView.Proofs.Memory.Nested.Flatten

/-!
# Operations on flat trees as operations on nested ones

Whatever is asked of a tree or done to it can be asked of a nested tree or done to
it, with the same answer or the same error, and the flat tree stays the flat form of
the nested one. A flat tree decides by the written forms of locations what a nested
one decides by going down from directory to directory.
-/

namespace ScriptView

namespace Location

/-- Whether one location is listed before another. -/
def Before (first second : Location) : Prop :=
  order first second = .lt

instance : Std.Irrefl Before where
  irrefl location less := by
    rw [Before, order_self] at less
    contradiction

instance : Std.Antisymm Before where
  antisymm first second less greater := by
    rw [Before, Std.OrientedCmp.gt_of_lt less] at greater
    contradiction

theorem compare_eq_lt_iff {first second : String} :
    compare first second = .lt ↔ first.toList < second.toList := by
  change compareOfLessAndEq first second = .lt ↔ _
  rw [compareOfLessAndEq_eq_lt]
  rfl

/-- In a directory, locations are in the order of their names. -/
theorem before_concat {first second : Name} (directory : Location)
    (less : Name.order first second = .lt) :
    Before (directory ++ [first]) (directory ++ [second]) := by
  rw [Name.order, compare_eq_lt_iff] at less
  rw [Before, order, compare_eq_lt_iff, toList_text_concat, toList_text_concat]
  exact List.append_left_lt (List.cons_lt_cons_self.mpr less)

end Location

namespace Memory

/-- What is there can be removed. -/
theorem Tree.exists_remove {tree : Tree} {location : Location}
    (isThere : tree.isFile location = true ∨ tree.isDirectory location = true) :
    ∃ left, tree.remove location = .ok left := by
  rw [remove]
  split
  · exact ⟨_, rfl⟩
  · next notFile =>
    rw [if_pos (isThere.resolve_left notFile)]
    exact ⟨_, rfl⟩

namespace Nested

variable {tree : Nested} {new : Option Node} {location place file : Location}

/-! ## At a location and on the way to it -/

theorem isDirectory_flatten_iff :
    tree.flatten.isDirectory location = true ↔
      ∃ row, tree.node? location = some (.directory row) := by
  rw [isDirectory_flatten, sight]
  cases tree.node? location with
  | none => simp [Node.sight, Sight.nothing]
  | some node => cases node <;> simp [Node.sight, Sight.file, Sight.directory]

theorem isFile_flatten_iff :
    tree.flatten.isFile location = true ↔ ∃ text, tree.node? location = some (.file text) := by
  rw [isFile_flatten, sight]
  cases tree.node? location with
  | none => simp [Node.sight, Sight.nothing]
  | some node => cases node <;> simp [Node.sight, Sight.file, Sight.directory]

theorem isDirectory_eq_false (notDirectory : ∀ row, tree.node? location ≠ some (.directory row)) :
    tree.flatten.isDirectory location = false := by
  rw [Bool.eq_false_iff, ne_eq, isDirectory_flatten_iff]
  exact fun ⟨row, directory⟩ => notDirectory row directory

theorem isFile_eq_false (nothing : tree.node? location = none) :
    tree.flatten.isFile location = false := by
  rw [Bool.eq_false_iff, ne_eq, isFile_flatten_iff, nothing]
  exact fun ⟨_, isThere⟩ => nomatch isThere

/-- Below what is no directory there is nothing. -/
theorem sight_below (notDirectory : ∀ row, tree.node? location ≠ some (.directory row))
    (below : location <+: place) (differs : location ≠ place) : tree.sight place = .nothing := by
  rw [sight]
  cases found : tree.node? place with
  | none => rfl
  | some node =>
      obtain ⟨row, holder⟩ := Node.get?_eq_directory found below differs
      exact absurd holder (notDirectory row)

theorem isFile_of_fileAbove? (isAbove : tree.fileAbove? location = some file) :
    file <+: location.dropLast ∧ tree.flatten.isFile file = true := by
  refine ⟨Location.mem_upward.mp (List.mem_of_find?_eq_some isAbove), ?_⟩
  have isFile := List.find?_some isAbove
  rw [isFile_flatten]
  exact isFile

theorem isFile_of_fileAbove?_eq_none (free : tree.fileAbove? location = none)
    (above : place <+: location.dropLast) : tree.flatten.isFile place = false := by
  rw [isFile_flatten]
  simpa using List.find?_eq_none.mp free place (Location.mem_upward.mpr above)

/-- Nothing is in the way of a directory where nothing is and no file is above. -/
theorem isFile_of_free (nothing : tree.node? location = none)
    (free : tree.fileAbove? location = none) (above : place <+: location) :
    tree.flatten.isFile place = false := by
  have notRoot : location ≠ .root := by
    rintro rfl
    contradiction
  by_cases here : place = location
  · rw [here, isFile_eq_false nothing]
  · exact isFile_of_fileAbove?_eq_none free
      ((Location.prefix_dropLast_iff notRoot).mpr ⟨above, here⟩)

/-- The file above a location is the only one there is. -/
theorem fileAbove?_eq_some_iff :
    tree.fileAbove? location = some file ↔
      file <+: location ∧ file ≠ location ∧ tree.flatten.isFile file = true := by
  have closed := tree.closed_flatten
  constructor
  · intro isAbove
    obtain ⟨above, isFile⟩ := isFile_of_fileAbove? isAbove
    have notRoot : location ≠ .root := by
      rintro rfl
      have isRoot : file = .root := List.prefix_nil.mp above
      have directory := closed.apart file isFile
      rw [isRoot, closed.root] at directory
      contradiction
    obtain ⟨aboveLocation, differs⟩ := (Location.prefix_dropLast_iff notRoot).mp above
    exact ⟨aboveLocation, differs, isFile⟩
  · rintro ⟨above, differs, isFile⟩
    have notRoot : location ≠ .root := by
      rintro rfl
      exact differs (List.prefix_nil.mp above)
    have aboveParent := (Location.prefix_dropLast_iff notRoot).mpr ⟨above, differs⟩
    cases isAbove : tree.fileAbove? location with
    | none =>
        rw [isFile_of_fileAbove?_eq_none isAbove aboveParent] at isFile
        contradiction
    | some other =>
        obtain ⟨otherAbove, otherFile⟩ := isFile_of_fileAbove? isAbove
        rw [closed.eq_of_isFile otherAbove aboveParent otherFile isFile]

/-! ## Changes -/

/-- Putting what holds nothing where no directory is adds it and the directories
above it. -/
theorem sight_put_bare (bare : Node.inside new = [])
    (notDirectory : ∀ row, tree.node? location ≠ some (.directory row))
    (orderedNew : ∀ node ∈ new, node.Ordered) (place : Location) :
    (tree.put location new orderedNew).sight place =
      if place = location then Node.sight new
      else if place <+: location then .directory
      else tree.sight place := by
  have notRoot : location ≠ .root := by
    rintro rfl
    exact notDirectory tree.entries rfl
  rw [sight_put]
  by_cases below : location <+: place
  · obtain ⟨rest, rfl⟩ := below
    cases rest with
    | nil => simp [notRoot]
    | cons name more =>
        have above : ¬location ++ name :: more <+: location := fun isAbove =>
          absurd isAbove.length_le (by simp)
        have nothing := sight_below notDirectory (List.prefix_append location (name :: more)) (by simp)
        simp [above, nothing, bare, Node.sight, Location.root]
  · have differs : place ≠ location := by
      rintro rfl
      exact below (List.prefix_refl place)
    by_cases isRoot : place = .root
    · have elsewhere : Location.root ≠ location := Ne.symm notRoot
      have top : Location.root <+: location := List.nil_prefix
      rw [isRoot, if_pos rfl, if_neg elsewhere, if_pos top]
    · simp [isRoot, below, differs]

/-- No directory can be made in a place with a file on the way to it. -/
theorem addDirectories_eq_error (isAbove : tree.fileAbove? location = some file) :
    tree.flatten.addDirectories location.dropLast = .error (.notAFile file.text) := by
  obtain ⟨above, isFile⟩ := isFile_of_fileAbove? isAbove
  exact tree.closed_flatten.addDirectories_eq_error isFile above

theorem flatten_write (tree : Nested) (location : Location) (text : String) :
    (tree.write location text).map flatten = tree.flatten.addFile location text := by
  rw [write]
  split
  · next row directory =>
    rw [Tree.addFile, if_pos (isDirectory_flatten_iff.mpr ⟨row, directory⟩)]
    rfl
  · next notDirectory =>
    rw [Tree.addFile, isDirectory_eq_false notDirectory, if_neg Bool.false_ne_true]
    cases isAbove : tree.fileAbove? location with
    | some file =>
        rw [addDirectories_eq_error isAbove]
        rfl
    | none =>
        obtain ⟨made, directories⟩ :=
          Tree.exists_addDirectories fun place => isFile_of_fileAbove?_eq_none isAbove
        rw [directories]
        refine congrArg Except.ok (Tree.eq_of_sight fun place => ?_)
        have added : tree.flatten.addFile location text =
            .ok { made with files := made.files.insert location text } := by
          rw [Tree.addFile, isDirectory_eq_false notDirectory, if_neg Bool.false_ne_true, directories]
          rfl
        rw [sight_flatten, sight_put_bare rfl notDirectory,
          tree.closed_flatten.sight_addFile added, sight_flatten]
        rfl

theorem flatten_makeDirectory (tree : Nested) (location : Location) :
    (tree.makeDirectory location).map flatten =
      if tree.flatten.isFile location then .error (.alreadyExists location.text)
      else tree.flatten.addDirectories location := by
  rw [makeDirectory]
  split
  · next text isFile =>
    rw [isFile_flatten_iff.mpr ⟨text, isFile⟩, if_pos rfl]
    rfl
  · next row directory =>
    have isDirectory := isDirectory_flatten_iff.mpr ⟨row, directory⟩
    rw [tree.closed_flatten.isFile_of_prefix (List.prefix_refl location) isDirectory,
      if_neg Bool.false_ne_true, Tree.addDirectories, Tree.missing_of_isDirectory isDirectory]
    rfl
  · next nothing =>
    have notDirectory : ∀ row, tree.node? location ≠ some (.directory row) := by simp [nothing]
    rw [isFile_eq_false nothing, if_neg Bool.false_ne_true]
    cases isAbove : tree.fileAbove? location with
    | some file =>
        obtain ⟨above, isFile⟩ := isFile_of_fileAbove? isAbove
        rw [tree.closed_flatten.addDirectories_eq_error isFile
          (Location.prefix_of_prefix_dropLast above)]
        rfl
    | none =>
        obtain ⟨made, directories⟩ :=
          Tree.exists_addDirectories fun place => isFile_of_free nothing isAbove
        rw [directories]
        refine congrArg Except.ok (Tree.eq_of_sight fun place => ?_)
        rw [sight_flatten, sight_put_bare rfl notDirectory,
          tree.closed_flatten.sight_addDirectories directories, sight_flatten]
        by_cases here : place = location
        · simp [here, Node.sight]
        · rw [if_neg here]

theorem flatten_delete (tree : Nested) (location : Location) :
    (tree.delete location).map flatten = tree.flatten.remove location := by
  rw [delete]
  split
  · next node found =>
    have isThere : tree.flatten.isFile location = true ∨ tree.flatten.isDirectory location = true := by
      cases node with
      | file text => exact .inl (isFile_flatten_iff.mpr ⟨text, found⟩)
      | directory row => exact .inr (isDirectory_flatten_iff.mpr ⟨row, found⟩)
    obtain ⟨left, removed⟩ := Tree.exists_remove isThere
    rw [removed]
    refine congrArg Except.ok (Tree.eq_of_sight fun place => ?_)
    rw [sight_flatten, sight_put, tree.closed_flatten.sight_remove removed, sight_flatten]
    by_cases isRoot : place = .root
    · rw [if_pos isRoot, if_neg fun gone => gone.1 isRoot, isRoot]
      rfl
    · rw [if_neg isRoot]
      by_cases below : location <+: place
      · rw [if_pos below, if_pos ⟨isRoot, below⟩, Node.get?_none]
        rfl
      · have stays : ¬(place ≠ .root ∧ location <+: place) := fun gone => below gone.2
        rw [if_neg below, if_neg stays]
        split
        · next above =>
          have differs : place ≠ location := by
            rintro rfl
            exact below above
          obtain ⟨row, holder⟩ := Node.get?_eq_directory found above differs
          exact (congrArg Node.sight holder).symm
        · rfl
  · next nothing =>
    rw [Tree.remove, isFile_eq_false nothing, isDirectory_eq_false (by simp [nothing])]
    rfl

/-! ## Questions -/

theorem read_flatten (tree : Nested) (location : Location) :
    tree.flatten.read location = tree.read location := by
  rw [Tree.read, text?_flatten, sight, read]
  cases tree.node? location with
  | none => rfl
  | some node => cases node <;> rfl

theorem node?_concat {row : Node.Row} (found : tree.node? location = some (.directory row))
    (name : Name) : tree.node? (location ++ [name]) = row.lookup name := by
  rw [node?] at found ⊢
  rw [Node.get?_append, found]
  rfl

theorem isThere_flatten_iff :
    (tree.flatten.isDirectory place = true ∨ tree.flatten.isFile place = true) ↔
      (tree.node? place).isSome = true := by
  rw [isDirectory_flatten_iff, isFile_flatten_iff]
  cases tree.node? place with
  | none => simp
  | some node => cases node <;> simp

theorem ordered_of_node? {row : Node.Row} (found : tree.node? location = some (.directory row)) :
    row.Pairwise fun first second => Name.order first.1 second.1 = .lt := by
  cases Node.ordered_get? tree.ordered_root location _ found with
  | directory names _ => exact names

/-- A flat directory lists the places of the nested one's entries. -/
theorem within_flatten {row : Node.Row} (found : tree.node? location = some (.directory row)) :
    tree.flatten.within location = row.map fun entry => location ++ [entry.1] := by
  have flat : (tree.flatten.within location).Pairwise Location.Before :=
    Tree.ordered_within tree.flatten location
  have nested : (row.map fun entry => location ++ [entry.1]).Pairwise Location.Before := by
    rw [List.pairwise_map]
    exact (ordered_of_node? found).imp fun less => Location.before_concat location less
  refine flat.eq_of_mem_iff nested fun place => ?_
  rw [Tree.mem_within, isThere_flatten_iff, List.mem_map]
  constructor
  · rintro ⟨⟨name, rfl⟩, isThere⟩
    rw [node?_concat found, List.lookup_isSome_iff] at isThere
    obtain ⟨entry, member, same⟩ := isThere
    rw [beq_iff_eq] at same
    exact ⟨entry, member, by rw [same]⟩
  · rintro ⟨entry, member, rfl⟩
    refine ⟨⟨entry.1, rfl⟩, ?_⟩
    rw [node?_concat found, List.lookup_isSome_iff]
    exact ⟨entry, member, beq_self_eq_true entry.1⟩

theorem entries_flatten {row : Node.Row} (found : tree.node? location = some (.directory row)) :
    tree.flatten.entries location = row.map (entryIn location) := by
  rw [Tree.entries_eq_map, within_flatten found, List.map_map]
  refine List.map_congr_left fun entry member => ?_
  have isThere : tree.node? (location ++ [entry.1]) = some entry.2 :=
    (node?_concat found entry.1).trans
      (Node.lookup_eq_some_of_mem (ordered_of_node? found) member)
  rw [Function.comp_apply, Tree.entryAt, isFile_flatten, isDirectory_flatten, sight, isThere]
  rfl

theorem list_flatten (tree : Nested) (location : Location) :
    tree.flatten.list location = tree.list location := by
  rw [list]
  split
  · next row found =>
    rw [Tree.list, if_pos (isDirectory_flatten_iff.mpr ⟨row, found⟩), entries_flatten found]
  · next notDirectory =>
    rw [Tree.list, isDirectory_eq_false notDirectory, if_neg Bool.false_ne_true]

end Nested

end Memory

end ScriptView
