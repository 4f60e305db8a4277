import ScriptView.Memory.Host
import ScriptView.Proofs.Host.Action
import ScriptView.Proofs.Memory.Closed

/-!
# Reachable trees

The trees that hosts come to hold: a new one, a tree with files from the start,
and whatever changes make of these, in any order and with any paths, whether the
changes happen or fail. All of them are closed. Copying is the change that may
stop halfway, so that every single step of it has to keep the tree closed.
-/

namespace ScriptView.Memory

open ScriptView.Action (after Keeps)

/-- What a host over a tree in memory holds. -/
structure Store where
  current : Location
  tree : Tree

namespace Store

/-- The store with another current directory, which is made if it can be. -/
def enter (store : Store) (path : String) : Store :=
  let current := Location.root.resolve path
  { current, tree := withCurrent store.tree current }

/-- The store after a change, whether it happens or fails. -/
def after (store : Store) (change : Change) : Store :=
  { store with tree := (change.run (host store.current)).after store.tree }

end Store

/-- The stores that hosts come to have. A clone starts with a copy of the tree and
goes its own way from there. -/
inductive Reachable : Store → Prop where
  | new : Reachable { current := .root, tree := .empty }
  | seeded {files : List (String × String)} {tree : Tree} (seeds : seed files = .ok tree) :
      Reachable { current := .root, tree }
  | entered {store : Store} (path : String) : Reachable store → Reachable (store.enter path)
  | changed {store : Store} (change : Change) : Reachable store → Reachable (store.after change)
  | cloned {store : Store} :
      Reachable store → Reachable { current := store.current, tree := store.tree }

/-- The host writes a file wherever the tree takes one. -/
theorem write_of_addFile {current : Location} {path text : String} {tree written : Tree}
    (added : tree.addFile (current.resolve path) text = .ok written) :
    (host current).write path text tree = .ok () written := by
  change change (·.addFile (current.resolve path) text) tree = _
  rw [change, added]

/-! ## What keeps trees closed -/

theorem keeps_change {property : Tree → Prop} {step : Tree → Except Error Tree}
    (keeps : ∀ {tree changed : Tree}, property tree → step tree = .ok changed → property changed) :
    Keeps property (change step) := by
  intro tree holds
  rw [after, change]
  cases done : step tree with
  | ok changed => exact keeps holds done
  | error => exact holds

section Copy

variable {property : Tree → Prop}
  (files : ∀ {tree written : Tree} {location : Location} {text : String},
    property tree → tree.addFile location text = .ok written → property written)
  (directories : ∀ {tree made : Tree} {location : Location},
    property tree → tree.addDirectories location = .ok made → property made)

include files

theorem keeps_copyFile (source target location : Location) :
    Keeps property (copyFile source target location) := by
  apply keeps_change
  intro tree changed holds done
  cases found : tree.text? location with
  | none =>
      rw [found] at done
      cases done
      exact holds
  | some text =>
      rw [found] at done
      exact files holds done

include directories

/-- A copy keeps what is kept when files are written and directories are made. -/
theorem keeps_copy_of (source target : Location) : Keeps property (copy source target) := by
  rw [copy]
  refine Keeps.bind Keeps.get fun tree => ?_
  split
  · exact Keeps.throw _
  · split
    · exact keeps_copyFile files source target source
    · split
      · refine Keeps.bind (Keeps.forM fun location => ?_) fun _ =>
          Keeps.forM (keeps_copyFile files source target)
        exact keeps_change fun holds done => directories holds done
      · exact Keeps.throw _

end Copy

/-- A property of trees that every single step of a change keeps. -/
structure Kept (property : Tree → Prop) : Prop where
  files : ∀ {tree written : Tree} {location : Location} {text : String},
    property tree → tree.addFile location text = .ok written → property written
  directories : ∀ {tree made : Tree} {location : Location},
    property tree → tree.addDirectories location = .ok made → property made
  removals : ∀ {tree left : Tree} {location : Location},
    property tree → tree.remove location = .ok left → property left

theorem kept_closed : Kept Tree.Closed where
  files closed done := closed.addFile done
  directories closed done := closed.addDirectories done
  removals closed done := closed.remove done

theorem keeps_copy (source target : Location) : Keeps Tree.Closed (copy source target) :=
  keeps_copy_of kept_closed.files kept_closed.directories source target

namespace Kept

variable {property : Tree → Prop} (kept : Kept property)

include kept

theorem keeps_move (source target : Location) : Keeps property (move source target) :=
  Keeps.bind (keeps_copy_of kept.files kept.directories source target) fun _ =>
    keeps_change kept.removals

/-- A change of any kind, with any paths, keeps what its steps keep. -/
theorem keeps_run (current : Location) (change : Change) :
    Keeps property (change.run (host current)) := by
  cases change with
  | write path text => exact keeps_change kept.files
  | makeDirectory path =>
      apply keeps_change
      intro tree changed holds done
      dsimp only at done
      split at done
      · contradiction
      · exact kept.directories holds done
  | delete path => exact keeps_change kept.removals
  | move source target =>
      rw [Change.run, host]
      dsimp only
      split
      · exact Keeps.pure ()
      · exact kept.keeps_move _ _
  | copy source target =>
      rw [Change.run, host]
      dsimp only
      split
      · exact Keeps.pure ()
      · exact keeps_copy_of kept.files kept.directories _ _

theorem of_foldlM {files : List (String × String)} {tree seeded : Tree} (holds : property tree)
    (seeds : files.foldlM (fun tree (path, text) =>
      tree.addFile (Location.root.resolve path) text) tree = .ok seeded) : property seeded := by
  induction files generalizing tree with
  | nil =>
      cases seeds
      exact holds
  | cons file files ih =>
      rcases file with ⟨path, text⟩
      rw [List.foldlM_cons] at seeds
      dsimp only at seeds
      cases added : tree.addFile (Location.root.resolve path) text with
      | error =>
          rw [added] at seeds
          contradiction
      | ok written =>
          rw [added] at seeds
          exact ih (kept.files holds added) seeds

theorem withCurrent {tree : Tree} (holds : property tree) (current : Location) :
    property (withCurrent tree current) := by
  rw [Memory.withCurrent]
  split
  · next made => exact kept.directories holds made
  · exact holds

/-- What holds of a new tree and is kept holds of every reachable one. -/
theorem of_reachable (new : property .empty) {store : Store} (reachable : Reachable store) :
    property store.tree := by
  induction reachable with
  | new => exact new
  | seeded seeds => exact kept.of_foldlM new seeds
  | entered path _ ih => exact kept.withCurrent ih _
  | changed change _ ih => exact kept.keeps_run _ change _ ih
  | cloned _ ih => exact ih

end Kept

/-! ## Reachable trees are closed -/

theorem Reachable.closed {store : Store} (reachable : Reachable store) : store.tree.Closed :=
  kept_closed.of_reachable Tree.closed_empty reachable

/-- A reachable tree is a tree of directories, and what it holds is written in
canonical form. -/
theorem wellFormed_of_reachable {store : Store} (reachable : Reachable store) :
    store.tree.isDirectory .root = true ∧
      (∀ location, ¬(store.tree.isFile location = true ∧ store.tree.isDirectory location = true)) ∧
      (∀ location directory, store.tree.isFile location = true ∨
          store.tree.isDirectory location = true →
        location.parent? = some directory → store.tree.isDirectory directory = true) ∧
      (∀ location, store.tree.isFile location = true ∨ store.tree.isDirectory location = true →
        IsCanonical location.text) := by
  have closed := reachable.closed
  refine ⟨closed.root, ?_, ?_, ?_⟩
  · rintro location ⟨file, directory⟩
    rw [closed.apart location file] at directory
    contradiction
  · intro location directory isThere isParent
    rw [Location.parent?] at isParent
    split at isParent
    · contradiction
    · cases isParent
      rcases isThere with file | isDirectory
      · exact closed.aboveFile location file
      · exact closed.aboveDirectory location isDirectory
  · intro location _
    exact Location.isCanonical_text location

/-- A copy that stops halfway, where a directory is in the way of its second
file. -/
theorem wellFormed_of_reachable_halfway :
    ∃ store, Reachable store ∧ store.tree.filePaths = ["/a/p", "/a/q", "/b/p", "/b/q/r"] ∧
      store.tree.isDirectory .root = true ∧
      (∀ location, ¬(store.tree.isFile location = true ∧ store.tree.isDirectory location = true)) ∧
      (∀ location directory, store.tree.isFile location = true ∨
          store.tree.isDirectory location = true →
        location.parent? = some directory → store.tree.isDirectory directory = true) ∧
      (∀ location, store.tree.isFile location = true ∨ store.tree.isDirectory location = true →
        IsCanonical location.text) := by
  have stops : ∃ store, Reachable store ∧
      store.tree.filePaths = ["/a/p", "/a/q", "/b/p", "/b/q/r"] := by
    refine ⟨((((Store.mk .root .empty).after (.write "/a/p" "1")).after
      (.write "a\\./q" "2")).after (.write "/b/q/r" "3")).after (.copy "/a/" "/b"), ?_, ?_⟩
    · exact .changed _ (.changed _ (.changed _ (.changed _ .new)))
    · decide +kernel
  rcases stops with ⟨store, reachable, paths⟩
  exact ⟨store, reachable, paths, wellFormed_of_reachable reachable⟩

end ScriptView.Memory
