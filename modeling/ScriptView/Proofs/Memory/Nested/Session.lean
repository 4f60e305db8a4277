import ScriptView.Proofs.Memory.Nested.Refinement
import ScriptView.Proofs.Memory.Transfer

/-!
# Sessions on flat and on nested trees

A session is a row of calls, each of which is answered and leaves a tree for the
next. A session on the host has the answers and the errors of the same session on a
nested tree, and after each call the host holds the flat form of the nested tree.
-/

namespace ScriptView.Memory

variable {σ τ : Type}

/-- A call to a host, with the paths as they are written. -/
inductive Call where
  | write (path text : String)
  | makeDirectory (path : String)
  | delete (path : String)
  | read (path : String)
  | hasFile (path : String)
  | hasDirectory (path : String)
  | list (path : String)
  deriving DecidableEq, Repr

/-- What is answered to a call. -/
inductive Answer where
  | done
  | text (text : String)
  | truth (value : Bool)
  | entries (entries : List Entry)
  deriving DecidableEq, Repr

/-- The answer to a call or the error that it ends with, and what is left. -/
structure Outcome (σ : Type) where
  answer : Except Error Answer
  left : σ

namespace Outcome

/-- The outcome in terms of other states. -/
def map (form : σ → τ) (outcome : Outcome σ) : Outcome τ where
  answer := outcome.answer
  left := form outcome.left

/-- The outcome of an action. -/
def ofAction (action : Action σ Unit) (state : σ) : Outcome σ :=
  match action state with
  | .ok () left => ⟨.ok .done, left⟩
  | .error error left => ⟨.error error, left⟩

/-- The outcome of a change that either happens or leaves everything as it was. -/
def ofResult (state : σ) : Except Error σ → Outcome σ
  | .ok left => ⟨.ok .done, left⟩
  | .error error => ⟨.error error, state⟩

theorem ofAction_change (step : Tree → Except Error Tree) (tree : Tree) :
    ofAction (change step) tree = ofResult tree (step tree) := by
  rw [ofAction, change]
  cases step tree <;> rfl

theorem ofResult_map (form : σ → τ) (state : σ) (result : Except Error σ) :
    ofResult (form state) (result.map form) = (ofResult state result).map form := by
  cases result <;> rfl

end Outcome

/-- A call on a host in some state. -/
def Call.outcome (host : Host σ) (state : σ) : Call → Outcome σ
  | .write path text => .ofAction (host.write path text) state
  | .makeDirectory path => .ofAction (host.makeDirectory path) state
  | .delete path => .ofAction (host.delete path) state
  | .read path => ⟨(host.read path state).map .text, state⟩
  | .hasFile path => ⟨.ok (.truth (host.hasFile path state)), state⟩
  | .hasDirectory path => ⟨.ok (.truth (host.hasDirectory path state)), state⟩
  | .list path => ⟨(host.list path state).map .entries, state⟩

/-- A call on a nested tree, with paths that lead from a current directory. -/
def Nested.outcome (current : Location) (tree : Nested) : Call → Outcome Nested
  | .write path text => .ofResult tree (tree.write (current.resolve path) text)
  | .makeDirectory path => .ofResult tree (tree.makeDirectory (current.resolve path))
  | .delete path => .ofResult tree (tree.delete (current.resolve path))
  | .read path => ⟨(tree.read (current.resolve path)).map .text, tree⟩
  | .hasFile path => ⟨.ok (.truth (tree.sight (current.resolve path)).text?.isSome), tree⟩
  | .hasDirectory path => ⟨.ok (.truth (tree.sight (current.resolve path)).isDirectory), tree⟩
  | .list path => ⟨(tree.list (current.resolve path)).map .entries, tree⟩

/-- The outcomes of calls that are made one after the other. -/
def outcomes (step : σ → Call → Outcome σ) (state : σ) : List Call → List (Outcome σ)
  | [] => []
  | call :: rest => step state call :: outcomes step (step state call).left rest

namespace Nested

/-- A call has the same outcome on a nested tree and on its flat form. -/
theorem outcome_flatten (current : Location) (tree : Nested) (call : Call) :
    call.outcome (host current) tree.flatten = (tree.outcome current call).map flatten := by
  cases call with
  | write path text =>
      rw [outcome, ← Outcome.ofResult_map, flatten_write]
      exact Outcome.ofAction_change (·.addFile (current.resolve path) text) tree.flatten
  | makeDirectory path =>
      rw [outcome, ← Outcome.ofResult_map, flatten_makeDirectory]
      let location := current.resolve path
      exact Outcome.ofAction_change
        (fun flat => if flat.isFile location then .error (.alreadyExists location.text)
          else flat.addDirectories location) tree.flatten
  | delete path =>
      rw [outcome, ← Outcome.ofResult_map, flatten_delete]
      exact Outcome.ofAction_change (·.remove (current.resolve path)) tree.flatten
  | read path =>
      rw [outcome, ← read_flatten]
      rfl
  | hasFile path =>
      rw [outcome, ← isFile_flatten]
      rfl
  | hasDirectory path =>
      rw [outcome, ← isDirectory_flatten]
      rfl
  | list path =>
      rw [outcome, ← list_flatten]
      rfl

/-- A session on a host is a session on a nested tree, call by call. -/
theorem outcomes_flatten (current : Location) (tree : Nested) (calls : List Call) :
    outcomes (Call.outcome (host current)) tree.flatten calls =
      (outcomes (outcome current) tree calls).map (Outcome.map flatten) := by
  induction calls generalizing tree with
  | nil => rfl
  | cons call rest ih =>
      have left := congrArg Outcome.left (outcome_flatten current tree call)
      rw [outcomes, outcomes, List.map_cons, left, outcome_flatten]
      exact congrArg _ (ih _)

theorem exists_flatten_of_map_eq_ok {result : Except Error Nested} {flat : Tree}
    (done : result.map flatten = .ok flat) : ∃ tree : Nested, tree.flatten = flat := by
  cases result with
  | ok tree => exact ⟨tree, Except.ok.inj done⟩
  | error => cases done

/-- What changes make of flat forms are flat forms. -/
theorem kept_flatten : Kept fun flat => ∃ tree : Nested, tree.flatten = flat where
  files := by
    rintro _ written location text ⟨tree, rfl⟩ done
    exact exists_flatten_of_map_eq_ok ((flatten_write tree location text).trans done)
  directories := by
    rintro _ made location ⟨tree, rfl⟩ done
    have notFile := tree.closed_flatten.isFile_made done (List.prefix_refl location)
    have makes := flatten_makeDirectory tree location
    rw [notFile, if_neg Bool.false_ne_true] at makes
    exact exists_flatten_of_map_eq_ok (makes.trans done)
  removals := by
    rintro _ left location ⟨tree, rfl⟩ done
    exact exists_flatten_of_map_eq_ok ((flatten_delete tree location).trans done)

/-- The host over a tree in memory is a nested tree that is kept flat. Whatever a host
holds is the flat form of a nested tree. Every session on a flat form has the outcomes
that it has on the nested tree; what cannot be made below a file names the one file
that is above; and a delete takes away what is at or below a location, apart from the
root, and nothing else. A place is at or below a location exactly if it is the
location or its written form starts with that of the location and a slash. -/
theorem refines_nested (current : Location) (tree : Nested) :
    empty.flatten = Tree.empty ∧
    (∀ store, Reachable store → ∃ nested : Nested, nested.flatten = store.tree) ∧
    (∀ calls, outcomes (Call.outcome (host current)) tree.flatten calls =
      (outcomes (outcome current) tree calls).map (Outcome.map flatten)) ∧
    (∀ location file, tree.fileAbove? location = some file ↔
      file <+: location ∧ file ≠ location ∧ ∃ text, tree.node? file = some (.file text)) ∧
    (∀ path left, (host current).delete path tree.flatten = .ok () left →
      ∀ place, left.sight place =
        if place ≠ .root ∧ current.resolve path <+: place then .nothing
        else tree.sight place) ∧
    (∀ location place : Location, location <+: place ↔
      place = location ∨ location.belowText.toList <+: place.text.toList) := by
  refine ⟨flatten_empty, ?_, outcomes_flatten current tree, ?_, ?_, Location.prefix_iff_text⟩
  · intro store reachable
    exact kept_flatten.of_reachable ⟨empty, flatten_empty⟩ reachable
  · intro location file
    rw [fileAbove?_eq_some_iff, isFile_flatten_iff]
  · intro path left deleted place
    change change (·.remove (current.resolve path)) tree.flatten = .ok () left at deleted
    rw [tree.closed_flatten.sight_remove (eq_ok_of_change deleted), sight_flatten]

/-- What a name merely starts is not deleted with it. -/
example :
    ((outcomes (outcome .root) empty
      [.write "/a/b" "1", .write "a//bc" "2", .makeDirectory "/a/b/c", .delete "/a/./b",
        .list "/a", .read "/a/b", .delete "/", .hasDirectory "/"]).map Outcome.answer) =
      [.ok .done, .ok .done, .error (.notAFile "/a/b"), .ok .done,
        .ok (.entries [⟨"/a/bc", true, false, false⟩]), .error (.fileNotFound "/a/b"), .ok .done,
        .ok (.truth true)] := by
  decide +kernel

end Nested

end ScriptView.Memory
