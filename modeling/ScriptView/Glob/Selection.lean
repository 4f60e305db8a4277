import ScriptView.Glob.Search

/-!
# Selections of paths

A selection is given by patterns: those after an exclamation mark take paths
out of what the others let in, in whatever order they stand.
-/

namespace ScriptView.Glob

/-- The patterns of a selection, without exclamation marks. -/
structure Selection where
  included : List String
  excluded : List String
  deriving DecidableEq, Repr

namespace Selection

/-- The text behind a leading exclamation mark. -/
def excluded? (pattern : String) : Option String :=
  match pattern.toList with
  | '!' :: rest => some (String.ofList rest)
  | _ => none

/-- Sort patterns by whether they let paths in or take them out. -/
def ofPatterns (patterns : List String) : Selection where
  included := patterns.filter fun pattern => (excluded? pattern).isNone
  excluded := patterns.filterMap excluded?

/-- Change every pattern. -/
def map (change : String → String) (selection : Selection) : Selection where
  included := selection.included.map change
  excluded := selection.excluded.map change

/-- Whether a path is taken out. -/
def excludes (selection : Selection) (path : String) : Bool :=
  selection.excluded.any fun pattern => accepts pattern path

/-- Whether a path is let in and not taken out. -/
def selects (selection : Selection) (path : String) : Bool :=
  (selection.included.any fun pattern => accepts pattern path) && !selection.excludes path

end Selection

end ScriptView.Glob
