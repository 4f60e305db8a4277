import ScriptView.Error

/-!
# Hosts

A host is what gives access to files: a set of operations over a state that
holds them. Questions look at a state; actions change it, and a failing action
may have changed it before it failed. Paths are plain strings, and what a
relative path means is up to the host.
-/

namespace ScriptView

/-- An action on a state, which may fail. -/
abbrev Action (σ : Type) (α : Type) := EStateM Error σ α

/-- What a host tells about an entry of a directory. For a link, it tells what
the link leads to. -/
structure Entry where
  path : String
  isFile : Bool
  isDirectory : Bool
  isLink : Bool := false
  deriving DecidableEq, Repr

/-- Access to files in a state. -/
structure Host (σ : Type) where
  isCaseSensitive : Bool
  currentDirectory : String
  read : String → σ → Except Error String
  list : String → σ → Except Error (List Entry)
  hasFile : String → σ → Bool
  hasDirectory : String → σ → Bool
  realPath : String → σ → Except Error String
  glob : List String → σ → List String
  write : String → String → Action σ Unit
  makeDirectory : String → Action σ Unit
  delete : String → Action σ Unit
  move : String → String → Action σ Unit
  copy : String → String → Action σ Unit

namespace Host

variable {σ : Type}

/-- Put the answer to a question into an action, which then leaves the state as
it is. -/
def ask {α : Type} (question : σ → Except Error α) : Action σ α := fun state =>
  match question state with
  | .ok value => .ok value state
  | .error error => .error error state

/-- The entries of a directory with those of its directories, each right behind
the directory that it is in. Links are not followed, and directories that cannot
be read have no entries. Entries nested more than `depth` deep are left out. -/
def walk (host : Host σ) (state : σ) : (depth : Nat) → (path : String) → List Entry
  | 0, _ => []
  | depth + 1, path =>
      match host.list path state with
      | .error _ => []
      | .ok entries =>
          entries.flatMap fun entry =>
            entry :: if entry.isDirectory && !entry.isLink then walk host state depth entry.path
              else []

end Host

end ScriptView
