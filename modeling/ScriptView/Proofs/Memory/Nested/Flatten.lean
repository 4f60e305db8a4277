import ScriptView.Proofs.Memory.Closed
import ScriptView.Proofs.Memory.Entries
import ScriptView.Proofs.Memory.Nested.Tree

/-!
# Flat trees from nested ones

A nested tree is made flat by walking through it and noting each node under its
location. What is told of a location stays the same, and as a flat tree is known by
what is told of its locations, no other tree is the flat form of a nested one.
-/

namespace ScriptView.Memory

/-- What is told of a location. -/
def Tree.sight (tree : Tree) (location : Location) : Sight :=
  ⟨tree.text? location, tree.isDirectory location⟩

theorem Tree.eq_of_sight {left right : Tree}
    (same : ∀ location, left.sight location = right.sight location) : left = right :=
  Tree.ext_view (fun location => congrArg Sight.text? (same location))
    fun location => congrArg Sight.isDirectory (same location)

/-! ## What changes tell -/

namespace Tree.Closed

variable {tree : Tree} (closed : tree.Closed) {location : Location}

include closed

theorem sight_addDirectories {made : Tree} (added : tree.addDirectories location = .ok made)
    (place : Location) :
    made.sight place = if place <+: location then .directory else tree.sight place := by
  have directory := closed.isDirectory_made added place
  rw [sight, text?_addDirectories added]
  split
  · next above =>
    rw [text?_eq_none (closed.isFile_made added above), directory.mpr (.inr above)]
    rfl
  · next apart => rw [sight, Bool.eq_iff_iff.mpr (directory.trans (or_iff_left apart))]

theorem sight_addFile {written : Tree} {text : String}
    (added : tree.addFile location text = .ok written) (place : Location) :
    written.sight place =
      if place = location then .file text
      else if place <+: location then .directory
      else tree.sight place := by
  obtain ⟨notDirectory, made, directories, same⟩ := exists_made_of_addFile added
  have notRoot : location ≠ .root := by
    rintro rfl
    rw [closed.root] at notDirectory
    contradiction
  rw [sight, text?_addFile added, same]
  split
  · next here =>
    have unmade : ¬location <+: location.dropLast := fun above =>
      ((Location.prefix_dropLast_iff notRoot).mp above).2 rfl
    have kept := (closed.isDirectory_made directories location).trans (or_iff_left unmade)
    rw [here, Bool.eq_iff_iff.mpr kept, notDirectory]
    rfl
  · next elsewhere =>
    have isMade := closed.sight_addDirectories directories place
    rw [sight, text?_addDirectories directories] at isMade
    simp only [isMade, Location.prefix_dropLast_iff notRoot, ne_eq, elsewhere, not_false_eq_true,
      and_true]

theorem sight_remove {left : Tree} (removed : tree.remove location = .ok left)
    (place : Location) :
    left.sight place =
      if place ≠ .root ∧ location <+: place then .nothing else tree.sight place := by
  rw [sight, closed.text?_remove removed, isDirectory_remove removed]
  by_cases below : location <+: place
  · rw [if_pos (Location.isAtOrBelow_iff.mpr below)]
    by_cases isRoot : place = .root
    · have notFile := closed.isFile_of_prefix (List.prefix_refl Location.root) closed.root
      have noText := text?_eq_none notFile
      simp [isRoot, sight, noText, closed.root]
    · have gone : (tree.isDirectory place && tree.isFile location) = false := by
        cases directory : tree.isDirectory place with
        | false => rfl
        | true => rw [closed.isFile_of_prefix below directory, Bool.and_false]
      simpa [isRoot, below, Location.isAtOrBelow_iff.mpr below, Sight.nothing] using gone
  · have away : place.isAtOrBelow location = false := by
      rw [Bool.eq_false_iff, ne_eq, Location.isAtOrBelow_iff]
      exact below
    simp [away, below, sight]

end Tree.Closed

namespace Nested

mutual

/-- Note a node and all that is in it under the location where the node is. -/
def Node.spread (top : Location) (tree : Tree) : Node → Tree
  | .file text => { tree with files := tree.files.insert top text }
  | .directory row =>
      Node.spreadRow top { tree with directories := tree.directories.insert top } row

/-- Note the entries of a directory and all that is in them. -/
def Node.spreadRow (top : Location) (tree : Tree) : List (Name × Node) → Tree
  | [] => tree
  | (name, node) :: rest => node.spread (top ++ [name]) (Node.spreadRow top tree rest)

end

/-- The flat form of a nested tree. -/
def flatten (tree : Nested) : Tree :=
  Node.spreadRow .root .empty tree.entries

namespace Node

variable {node : Node} {row : Row} {top place : Location} {base tree : Tree}

/-! ## What is noted -/

theorem sight_insertFile (top : Location) (text : String) (tree : Tree) (place : Location) :
    Tree.sight { tree with files := tree.files.insert top text } place =
      if place = top then ⟨some text, tree.isDirectory place⟩ else tree.sight place := by
  simp only [Tree.sight, Tree.text?, Tree.isDirectory, Std.ExtTreeMap.getElem?_insert,
    Std.LawfulEqCmp.compare_eq_iff_eq, eq_comm (a := top)]
  split <;> rfl

theorem sight_insertDirectory (top : Location) (tree : Tree) (place : Location) :
    Tree.sight { tree with directories := tree.directories.insert top } place =
      if place = top then ⟨tree.text? place, true⟩ else tree.sight place := by
  simp only [Tree.sight, Tree.text?, Tree.isDirectory, Std.ExtTreeSet.contains_insert]
  by_cases here : place = top
  · subst here
    simp
  · simp [here, Ne.symm here]

/-- A tree with a node at a place, which is like another tree elsewhere. -/
structure Noted (node : Node) (top : Location) (base tree : Tree) : Prop where
  within : ∀ below, tree.sight (top ++ below) = sight (get? below (some node))
  beside : ∀ place, ¬top <+: place → tree.sight place = base.sight place

/-- Nothing is told of a place and of all that is below it. -/
def Free (top : Location) (tree : Tree) : Prop :=
  ∀ below, tree.sight (top ++ below) = .nothing

theorem noted_file (free : Free top base) (text : String) :
    Noted (.file text) top base (spread top base (.file text)) := by
  constructor
  · intro below
    rw [spread, sight_insertFile]
    cases below with
    | nil =>
        have noDirectory := congrArg Sight.isDirectory (free [])
        rw [if_pos (List.append_nil top)]
        exact congrArg (Sight.mk (some text)) noDirectory
    | cons name rest =>
        rw [if_neg (by simp), free]
        simp [inside, sight]
  · intro place apart
    have differs : place ≠ top := fun same => apart (same ▸ List.prefix_refl top)
    rw [spread, sight_insertFile, if_neg differs]

theorem noted_emptyDirectory (free : Free top base) :
    Noted (.directory []) top base { base with directories := base.directories.insert top } := by
  constructor
  · intro below
    rw [sight_insertDirectory]
    cases below with
    | nil =>
        have noText := congrArg Sight.text? (free [])
        rw [if_pos (List.append_nil top)]
        exact congrArg (Sight.mk · true) noText
    | cons name rest =>
        rw [if_neg (by simp), free]
        simp [inside, sight]
  · intro place apart
    have differs : place ≠ top := fun same => apart (same ▸ List.prefix_refl top)
    rw [sight_insertDirectory, if_neg differs]

/-- One more entry is noted in a directory that has none under its name. -/
theorem Noted.cons {name : Name} {noted : Tree} (others : Noted (.directory row) top base tree)
    (here : Noted node (top ++ [name]) tree noted) :
    Noted (.directory ((name, node) :: row)) top base noted := by
  constructor
  · intro below
    cases below with
    | nil =>
        have above : ¬top ++ [name] <+: top ++ [] := fun isAbove =>
          absurd isAbove.length_le (by simp)
        rw [here.beside _ above, others.within]
        rfl
    | cons other rest =>
        by_cases same : other = name
        · subst same
          rw [List.append_cons, here.within]
          simp [inside]
        · have apart : ¬top ++ [name] <+: top ++ other :: rest := by
            rw [List.prefix_append_right_inj, List.cons_prefix_cons]
            exact fun isAbove => same isAbove.1.symm
          rw [here.beside _ apart, others.within]
          simp [inside, List.lookup_cons, beq_false_of_ne same]
  · intro place apart
    have further : ¬top ++ [name] <+: place := fun isAbove =>
      apart ((List.prefix_append top [name]).trans isAbove)
    rw [here.beside _ further, others.beside _ apart]

/-- The entries of a directory are noted if each of them is noted wherever there is
room for it. -/
theorem noted_spreadRow (names : row.Pairwise fun first second => Name.order first.1 second.1 = .lt)
    (nodes : ∀ entry ∈ row, ∀ top base, Free top base →
      Noted entry.2 top base (entry.2.spread top base))
    (start : Noted (.directory []) top base tree) :
    Noted (.directory row) top base (spreadRow top tree row) := by
  induction row with
  | nil => exact start
  | cons entry rest ih =>
      obtain ⟨name, node⟩ := entry
      obtain ⟨less, namesOfRest⟩ := List.pairwise_cons.mp names
      have others := ih namesOfRest fun entry member => nodes entry (List.mem_cons_of_mem _ member)
      have absent : rest.lookup name = none := by
        rw [List.lookup_eq_none_iff]
        intro entry member
        have differs : name ≠ entry.1 := fun same => by
          have lower := less entry member
          rw [same, Name.order_self] at lower
          contradiction
        simpa using differs
      have free : Free (top ++ [name]) (spreadRow top tree rest) := by
        intro below
        rw [List.append_assoc, others.within, List.singleton_append, get?_cons, inside, absent,
          get?_none, sight]
      exact others.cons (nodes (name, node) List.mem_cons_self _ _ free)

/-- A node is noted where there is room for it. -/
theorem noted_spread (ordered : node.Ordered) :
    ∀ top base, Free top base → Noted node top base (node.spread top base) := by
  induction ordered with
  | file text => exact fun top base free => noted_file free text
  | directory names _ ih =>
      intro top base free
      exact noted_spreadRow names ih (noted_emptyDirectory free)

end Node

/-! ## Flat forms -/

variable {location : Location}

/-- A nested tree and its flat form tell the same of every location. -/
@[simp] theorem sight_flatten (tree : Nested) (location : Location) :
    tree.flatten.sight location = tree.sight location := by
  have start : Node.Noted (.directory []) .root .empty .empty := by
    constructor
    · intro below
      cases below <;>
        simp [Tree.sight, Node.inside, Node.sight, Sight.nothing, Sight.directory, Location.root]
    · exact fun _ _ => rfl
  cases ordered : tree.ordered with
  | directory names nodes =>
      have noted := Node.noted_spreadRow names
        (fun entry member => Node.noted_spread (nodes entry member)) start
      exact noted.within location

theorem flatten_empty : empty.flatten = Tree.empty := rfl

theorem text?_flatten (tree : Nested) (location : Location) :
    tree.flatten.text? location = (tree.sight location).text? :=
  congrArg Sight.text? (tree.sight_flatten location)

theorem isDirectory_flatten (tree : Nested) (location : Location) :
    tree.flatten.isDirectory location = (tree.sight location).isDirectory :=
  congrArg Sight.isDirectory (tree.sight_flatten location)

theorem isFile_flatten (tree : Nested) (location : Location) :
    tree.flatten.isFile location = (tree.sight location).text?.isSome := by
  rw [Tree.isFile_eq_isSome, text?_flatten]

/-- Whatever a nested tree holds is held by a directory. -/
theorem sight_dropLast {tree : Nested} (isThere : tree.sight location ≠ .nothing) :
    tree.sight location.dropLast = .directory := by
  cases found : tree.node? location with
  | none => exact absurd (congrArg Node.sight found) isThere
  | some node =>
      cases location with
      | nil => rfl
      | cons name rest =>
          have differs : (name :: rest).dropLast ≠ name :: rest := fun same =>
            absurd (congrArg List.length same) (by simp)
          obtain ⟨row, holder⟩ :=
            Node.get?_eq_directory found (List.dropLast_prefix _) differs
          exact congrArg Node.sight holder

theorem Node.isDirectory_sight {found : Option Node} (file : (sight found).text?.isSome = true) :
    (sight found).isDirectory = false := by
  cases found with
  | none => rfl
  | some node =>
      cases node with
      | file => rfl
      | directory => contradiction

theorem closed_flatten (tree : Nested) : tree.flatten.Closed := by
  constructor
  · rw [isDirectory_flatten]
    rfl
  · intro location file
    rw [isFile_flatten] at file
    rw [isDirectory_flatten]
    exact Node.isDirectory_sight file
  · intro location file
    rw [isFile_flatten] at file
    rw [isDirectory_flatten, sight_dropLast]
    · rfl
    · intro nothing
      rw [nothing] at file
      contradiction
  · intro location directory
    rw [isDirectory_flatten] at directory ⊢
    rw [sight_dropLast]
    · rfl
    · intro nothing
      rw [nothing] at directory
      contradiction

end Nested

end ScriptView.Memory
