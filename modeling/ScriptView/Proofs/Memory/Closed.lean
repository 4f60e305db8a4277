import Mathlib.Data.List.Induction
import ScriptView.Memory.Tree
import ScriptView.Proofs.Location

/-!
# Closed trees

A tree in memory keeps its files and its directories apart from each other, in
two collections that know nothing of the tree's shape. What makes them a tree is
the property of being closed: the root is a directory, nothing is both a file
and a directory, and whatever is there is in a directory. Every operation on
trees keeps it.
-/

namespace ScriptView

namespace Memory

/-- The files and directories of a tree fit together. The root counts as being
in itself. -/
structure Tree.Closed (tree : Tree) : Prop where
  root : tree.isDirectory .root = true
  apart : ∀ location, tree.isFile location = true → tree.isDirectory location = false
  aboveFile : ∀ location, tree.isFile location = true →
    tree.isDirectory location.dropLast = true
  aboveDirectory : ∀ location, tree.isDirectory location = true →
    tree.isDirectory location.dropLast = true

namespace Tree

theorem isFile_congr {left right : Tree} {location other : Location}
    (same : left.text? location = right.text? other) :
    left.isFile location = right.isFile other := by
  rw [isFile_eq_isSome, isFile_eq_isSome, same]

/-- Where no file is, no text is. -/
theorem text?_eq_none {tree : Tree} {location : Location} (notFile : tree.isFile location = false) :
    tree.text? location = none := by
  rw [isFile_eq_isSome, Option.isSome_eq_false_iff, Option.isNone_iff_eq_none] at notFile
  exact notFile

theorem read_eq_ok {tree : Tree} {location : Location} {text : String} :
    tree.read location = .ok text ↔ tree.text? location = some text := by
  rw [read]
  split
  · next found => rw [found, Except.ok.injEq, Option.some.injEq]
  · next nothing => simp [nothing]

theorem closed_empty : empty.Closed := by
  constructor
  · simp
  · intro location file
    rw [isFile_eq_isSome, text?_empty] at file
    contradiction
  · intro location file
    rw [isFile_eq_isSome, text?_empty] at file
    contradiction
  · intro location directory
    rw [isDirectory_empty, decide_eq_true_eq] at directory ⊢
    rw [directory]
    rfl

/-! ## Missing directories -/

theorem mem_of_missing {tree : Tree} {row places : List Location}
    (found : tree.missing row = .ok places) {place : Location} (member : place ∈ places) :
    place ∈ row ∧ tree.isFile place = false := by
  induction row generalizing places with
  | nil =>
      cases found
      contradiction
  | cons first above ih =>
      rw [missing] at found
      split at found
      · cases found
        contradiction
      · split at found
        · contradiction
        · next notFile =>
          cases others : tree.missing above with
          | error =>
              rw [others] at found
              contradiction
          | ok further =>
              rw [others] at found
              cases found
              rcases List.mem_cons.mp member with rfl | later
              · exact ⟨List.mem_cons_self, by simpa using notFile⟩
              · exact ⟨List.mem_cons_of_mem _ (ih others later).1, (ih others later).2⟩

/-- What cannot be made is named by the file that is in the way. -/
theorem exists_isFile_of_missing {tree : Tree} {row : List Location} {error : Error}
    (fails : tree.missing row = .error error) :
    ∃ place ∈ row, tree.isFile place = true ∧ error = .notAFile place.text := by
  induction row with
  | nil => cases fails
  | cons place above ih =>
      rw [missing] at fails
      split at fails
      · cases fails
      · split at fails
        · next file =>
          cases fails
          exact ⟨place, List.mem_cons_self, file, rfl⟩
        · cases others : tree.missing above with
          | ok =>
              rw [others] at fails
              cases fails
          | error =>
              rw [others] at fails
              cases fails
              rcases ih others with ⟨file, member, isFile, named⟩
              exact ⟨file, List.mem_cons_of_mem _ member, isFile, named⟩

/-- A directory is made where no file is in the way. -/
theorem exists_addDirectories {tree : Tree} {location : Location}
    (free : ∀ place, place <+: location → tree.isFile place = false) :
    ∃ made, tree.addDirectories location = .ok made := by
  rw [addDirectories]
  cases found : tree.missing location.upward with
  | ok => exact ⟨_, rfl⟩
  | error =>
      rcases exists_isFile_of_missing found with ⟨place, member, file, -⟩
      rw [free place (Location.mem_upward.mp member)] at file
      contradiction

/-! ## Written files -/

/-- A file is written where no directory is, behind the directories that are made
for it. -/
theorem exists_made_of_addFile {tree written : Tree} {location : Location} {text : String}
    (added : tree.addFile location text = .ok written) :
    tree.isDirectory location = false ∧ ∃ made,
      tree.addDirectories location.dropLast = .ok made ∧
      ∀ place, written.isDirectory place = made.isDirectory place := by
  rw [addFile] at added
  split at added
  · contradiction
  · next notDirectory =>
    refine ⟨by simpa using notDirectory, ?_⟩
    cases directories : tree.addDirectories location.dropLast with
    | error =>
        rw [directories] at added
        contradiction
    | ok made =>
        rw [directories] at added
        cases added
        exact ⟨made, rfl, fun _ => rfl⟩

theorem isFile_addFile {tree written : Tree} {location : Location} {text : String}
    (added : tree.addFile location text = .ok written) (place : Location) :
    written.isFile place = true ↔ place = location ∨ tree.isFile place = true := by
  rw [isFile_eq_isSome, text?_addFile added, isFile_eq_isSome]
  split
  · next here => simp [here]
  · next elsewhere => simp [elsewhere]

/-! ## Removed files -/

/-- A file that is left is neither what was removed nor below it. -/
theorem isFile_remove {tree left : Tree} {location : Location}
    (removed : tree.remove location = .ok left) {place : Location}
    (kept : left.isFile place = true) :
    tree.isFile place = true ∧ (tree.isFile location = false → place.isBelow location = false) := by
  rw [isFile_eq_isSome, text?_remove removed] at kept
  cases file : tree.isFile location with
  | true =>
      rw [file, if_pos rfl] at kept
      split at kept
      · contradiction
      · exact ⟨by rw [isFile_eq_isSome, kept], fun notFile => nomatch notFile⟩
  | false =>
      rw [file, if_neg Bool.false_ne_true] at kept
      split at kept
      · contradiction
      · next notBelow => exact ⟨by rw [isFile_eq_isSome, kept], fun _ => by simpa using notBelow⟩

/-- Above a directory nothing is missing. -/
theorem missing_of_isDirectory {tree : Tree} {location : Location}
    (directory : tree.isDirectory location = true) : tree.missing location.upward = .ok [] := by
  rcases List.eq_nil_or_concat location with rfl | ⟨front, name, rfl⟩
  · rw [Location.upward, missing, if_pos directory]
  · rw [List.concat_eq_append] at directory ⊢
    rw [Location.upward_concat, missing, if_pos directory]

namespace Closed

variable {tree : Tree} (closed : tree.Closed)

include closed

/-- All places above a directory are directories. -/
theorem isDirectory_of_prefix {place location : Location} (above : place <+: location)
    (directory : tree.isDirectory location = true) : tree.isDirectory place = true := by
  induction location using List.reverseRecOn with
  | nil =>
      rw [List.prefix_nil.mp above]
      exact directory
  | append_singleton front name ih =>
      rcases List.prefix_concat_iff.mp above with same | further
      · rw [same]
        exact directory
      · apply ih further
        have parent := closed.aboveDirectory _ directory
        rw [List.dropLast_concat] at parent
        exact parent

/-- Whatever is there has directories above it. -/
theorem isDirectory_above {place location : Location} (above : place <+: location)
    (differs : place ≠ location) (file : tree.isFile location = true) :
    tree.isDirectory place = true := by
  refine closed.isDirectory_of_prefix ?_ (closed.aboveFile _ file)
  induction location using List.reverseRecOn with
  | nil => exact absurd (List.prefix_nil.mp above) differs
  | append_singleton front name _ =>
      rw [List.dropLast_concat]
      rcases List.prefix_concat_iff.mp above with same | further
      · exact absurd same differs
      · exact further

/-- A directory and what lies above it are no files. -/
theorem isFile_of_prefix {place location : Location} (above : place <+: location)
    (directory : tree.isDirectory location = true) : tree.isFile place = false := by
  cases file : tree.isFile place with
  | false => rfl
  | true =>
      have here := closed.isDirectory_of_prefix above directory
      rw [closed.apart place file] at here
      contradiction

/-- Upward from a place there are directories and missing places only, unless
there is a file on the way. -/
theorem of_missing {location : Location} {places : List Location}
    (found : tree.missing location.upward = .ok places) {place : Location}
    (above : place <+: location) : tree.isDirectory place = true ∨ place ∈ places := by
  induction location using List.reverseRecOn generalizing places with
  | nil =>
      rw [List.prefix_nil.mp above]
      exact .inl closed.root
  | append_singleton front name ih =>
      rw [Location.upward_concat, missing] at found
      split at found
      · next directory => exact .inl (closed.isDirectory_of_prefix above directory)
      · split at found
        · contradiction
        · cases others : tree.missing (Location.upward front) with
          | error =>
              rw [others] at found
              contradiction
          | ok further =>
              rw [others] at found
              cases found
              rcases List.prefix_concat_iff.mp above with rfl | inFront
              · exact .inr List.mem_cons_self
              · exact (ih others inFront).imp_right (List.mem_cons_of_mem _)

/-- Making a directory makes directories of all places that it is at or below. -/
theorem isDirectory_made {made : Tree} {location : Location}
    (added : tree.addDirectories location = .ok made) (place : Location) :
    made.isDirectory place = true ↔ tree.isDirectory place = true ∨ place <+: location := by
  cases found : tree.missing location.upward with
  | error =>
      rw [addDirectories, found] at added
      contradiction
  | ok places =>
      rw [isDirectory_addDirectories found added, Bool.or_eq_true, List.contains_iff_mem]
      constructor
      · rintro (old | new)
        · exact .inl old
        · exact .inr (Location.mem_upward.mp (mem_of_missing found new).1)
      · rintro (old | above)
        · exact .inl old
        · exact closed.of_missing found above

/-- Where a directory is made, nothing on the way to it is a file. -/
theorem isFile_made {made : Tree} {location : Location}
    (added : tree.addDirectories location = .ok made) {place : Location}
    (above : place <+: location) : tree.isFile place = false := by
  cases found : tree.missing location.upward with
  | error =>
      rw [addDirectories, found] at added
      contradiction
  | ok places =>
      rcases closed.of_missing found above with directory | new
      · exact closed.isFile_of_prefix (List.prefix_refl place) directory
      · exact (mem_of_missing found new).2

/-- There is one file at most on the way to a place. -/
theorem eq_of_isFile {first second location : Location} (firstAbove : first <+: location)
    (secondAbove : second <+: location) (firstFile : tree.isFile first = true)
    (secondFile : tree.isFile second = true) : first = second := by
  by_contra differs
  rcases List.prefix_or_prefix_of_prefix firstAbove secondAbove with above | above
  · have directory := closed.isDirectory_above above differs secondFile
    rw [closed.apart first firstFile] at directory
    contradiction
  · have directory := closed.isDirectory_above above (Ne.symm differs) firstFile
    rw [closed.apart second secondFile] at directory
    contradiction

/-- Below a file, the file is what a directory cannot be made for. -/
theorem addDirectories_eq_error {file location : Location} (isFile : tree.isFile file = true)
    (above : file <+: location) : tree.addDirectories location = .error (.notAFile file.text) := by
  rw [Tree.addDirectories]
  cases found : tree.missing location.upward with
  | ok places =>
      rcases closed.of_missing found above with directory | new
      · rw [closed.apart file isFile] at directory
        contradiction
      · rw [(mem_of_missing found new).2] at isFile
        contradiction
  | error =>
      rcases exists_isFile_of_missing found with ⟨other, member, otherFile, rfl⟩
      rw [closed.eq_of_isFile above (Location.mem_upward.mp member) isFile otherFile]
      rfl

/-- What is removed and what is below it has no text any more. -/
theorem text?_remove {left : Tree} {location : Location}
    (removed : tree.remove location = .ok left) (place : Location) :
    left.text? place = if place.isAtOrBelow location then none else tree.text? place := by
  rw [Tree.text?_remove removed]
  cases isFile : tree.isFile location with
  | true =>
      rw [if_pos rfl]
      by_cases same : place = location
      · rw [same, if_pos (beq_self_eq_true location), if_pos (by simp [Location.isAtOrBelow_iff])]
      · rw [if_neg (by simpa using same)]
        split
        · next atOrBelow =>
          apply text?_eq_none
          rw [Bool.eq_false_iff]
          intro isThere
          have directory := closed.isDirectory_above (Location.isAtOrBelow_iff.mp atOrBelow)
            (Ne.symm same) isThere
          rw [closed.apart location isFile] at directory
          contradiction
        · rfl
  | false =>
      rw [if_neg Bool.false_ne_true]
      by_cases same : place = location
      · rw [same, text?_eq_none isFile, ite_self, ite_self]
      · have sameTest : place.isBelow location = place.isAtOrBelow location := by
          rw [Bool.eq_iff_iff, Location.isBelow_iff, Location.isAtOrBelow_iff]
          exact and_iff_left same
        rw [sameTest]

/-! ## What keeps a tree closed -/

theorem addDirectories {made : Tree} {location : Location}
    (added : tree.addDirectories location = .ok made) : made.Closed := by
  have sameFile : ∀ place, made.isFile place = tree.isFile place := fun place =>
    isFile_congr (text?_addDirectories added place)
  constructor
  · exact (closed.isDirectory_made added _).mpr (.inl closed.root)
  · intro place file
    rw [sameFile] at file
    rw [Bool.eq_false_iff, ne_eq, closed.isDirectory_made added]
    rintro (old | above)
    · rw [closed.apart place file] at old
      contradiction
    · rw [closed.isFile_made added above] at file
      contradiction
  · intro place file
    rw [sameFile] at file
    exact (closed.isDirectory_made added _).mpr (.inl (closed.aboveFile place file))
  · intro place directory
    rw [closed.isDirectory_made added] at directory ⊢
    rcases directory with old | above
    · exact .inl (closed.aboveDirectory place old)
    · exact .inr ((List.dropLast_prefix place).trans above)

theorem addFile {written : Tree} {location : Location} {text : String}
    (added : tree.addFile location text = .ok written) : written.Closed := by
  rcases exists_made_of_addFile added with ⟨notDirectory, made, directories, same⟩
  have closedMade := closed.addDirectories directories
  have notAbove : ¬location <+: location.dropLast := by
    intro above
    have directory := (closed.isDirectory_made directories location).mpr (.inr above)
    have short := above.length_le
    rw [List.length_dropLast] at short
    have isRoot : location = .root := List.length_eq_zero_iff.mp (by omega)
    rw [isRoot, closed.root] at notDirectory
    contradiction
  constructor
  · rw [same]
    exact closedMade.root
  · intro place file
    rw [same, Bool.eq_false_iff, ne_eq, closed.isDirectory_made directories]
    rcases (isFile_addFile added place).mp file with rfl | old
    · rw [notDirectory]
      rintro (old | above)
      · contradiction
      · exact notAbove above
    · rw [closed.apart place old]
      rintro (old | above)
      · contradiction
      · rw [closed.isFile_made directories above] at old
        contradiction
  · intro place file
    rw [same, closed.isDirectory_made directories]
    rcases (isFile_addFile added place).mp file with rfl | old
    · exact .inr (List.prefix_refl _)
    · exact .inl (closed.aboveFile place old)
  · intro place directory
    rw [same] at directory ⊢
    exact closedMade.aboveDirectory place directory

/-- A file that is there can be written. -/
theorem exists_addFile {location : Location} (file : tree.isFile location = true) (text : String) :
    ∃ written, tree.addFile location text = .ok written := by
  have nothing := missing_of_isDirectory (closed.aboveFile location file)
  rw [Tree.addFile, closed.apart location file, if_neg Bool.false_ne_true, Tree.addDirectories,
    nothing]
  exact ⟨_, rfl⟩

theorem remove {left : Tree} {location : Location} (removed : tree.remove location = .ok left) :
    left.Closed := by
  constructor
  · rw [isDirectory_remove removed, closed.root]
    simp
  · intro place file
    rw [isDirectory_remove removed, closed.apart place (isFile_remove removed file).1,
      Bool.false_and]
  · intro place file
    rcases isFile_remove removed file with ⟨wasFile, notBelow⟩
    rw [isDirectory_remove removed, closed.aboveFile place wasFile, Bool.true_and]
    cases isFile : tree.isFile location with
    | true => rfl
    | false =>
        have differs : place ≠ location := by
          intro same
          rw [same, isFile] at wasFile
          contradiction
        have away : Location.isAtOrBelow place.dropLast location = false := by
          rw [Bool.eq_false_iff, ne_eq, Location.isAtOrBelow_iff]
          intro atOrBelow
          have below := Location.isBelow_iff.mpr
            ⟨Location.prefix_of_prefix_dropLast atOrBelow, differs⟩
          rw [notBelow isFile] at below
          contradiction
        simp [away]
  · intro place directory
    rw [isDirectory_remove removed, Bool.and_eq_true, Bool.or_eq_true, Bool.or_eq_true,
      beq_iff_eq, Bool.not_eq_true'] at directory
    rw [isDirectory_remove removed, closed.aboveDirectory place directory.1, Bool.true_and]
    rcases directory.2 with (file | isRoot) | away
    · rw [file, Bool.true_or, Bool.true_or]
    · rw [isRoot]
      simp [Location.root]
    · have awayToo : Location.isAtOrBelow place.dropLast location = false := by
        rw [Bool.eq_false_iff, ne_eq, Location.isAtOrBelow_iff] at away ⊢
        intro atOrBelow
        exact away (Location.prefix_of_prefix_dropLast atOrBelow)
      rw [awayToo, Bool.not_false, Bool.or_true]

end Closed

end Tree

end Memory

end ScriptView
