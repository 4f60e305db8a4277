import ScriptView.Glob.Braces
import ScriptView.Glob.Pattern

/-!
# Searching for a match

A search tries every way to divide a path among the atoms of a pattern, and
counts its steps: one for each pair of remaining atoms and remaining path that
it looks at. All alternatives of a pattern share one count, and a step beyond
the limit finds nothing, so that no pattern can hold up a search for long.
-/

namespace ScriptView.Glob

/-- The number of steps that a search may use. -/
def stepLimit : Nat := 100000

/-- The answer of a search and the number of steps used so far. -/
structure Outcome where
  found : Bool
  steps : Nat
  deriving DecidableEq, Repr

/-- Search with the candidates in turn until one is found to match. -/
def firstFound {α : Type} (search : α → Nat → Outcome) : List α → Nat → Outcome
  | [], steps => ⟨false, steps⟩
  | candidate :: others, steps =>
      let outcome := search candidate steps
      if outcome.found then outcome else firstFound search others outcome.steps

/-- Every tail of a path, the longest first. -/
def tails : List Char → List (List Char)
  | [] => [[]]
  | c :: rest => (c :: rest) :: tails rest

/-- The tails of a path that are reached without passing a slash. -/
def segmentTails : List Char → List (List Char)
  | [] => [[]]
  | c :: rest => (c :: rest) :: if c = '/' then [] else segmentTails rest

theorem mem_tails {tail path : List Char} : tail ∈ tails path ↔ tail <:+ path := by
  induction path with
  | nil => simp [tails]
  | cons c rest ih => rw [tails, List.mem_cons, ih, List.suffix_cons_iff]

/-- A tail is reached without passing a slash if none stands before it. -/
theorem mem_segmentTails {tail path : List Char} :
    tail ∈ segmentTails path ↔ ∃ front, '/' ∉ front ∧ path = front ++ tail := by
  induction path with
  | nil =>
    rw [segmentTails, List.mem_singleton]
    constructor
    · rintro rfl
      exact ⟨[], by simp, rfl⟩
    · rintro ⟨front, _, eq⟩
      exact (List.append_eq_nil_iff.mp eq.symm).2
  | cons c rest ih =>
    rw [segmentTails, List.mem_cons]
    constructor
    · rintro (rfl | inRest)
      · exact ⟨[], by simp, rfl⟩
      · split at inRest
        · simp at inRest
        · next plain =>
          obtain ⟨front, noSlash, rfl⟩ := ih.mp inRest
          exact ⟨c :: front, by simp [noSlash, Ne.symm plain], rfl⟩
    · rintro ⟨front, noSlash, eq⟩
      cases front with
      | nil => exact Or.inl eq.symm
      | cons d front =>
        obtain ⟨rfl, rfl⟩ := List.cons.inj eq
        rw [List.mem_cons, not_or] at noSlash
        rw [if_neg (Ne.symm noSlash.1)]
        exact Or.inr (ih.mpr ⟨front, noSlash.2, rfl⟩)

/-- Whether the atoms match the whole path, after so many steps. Stars try the
shortest stretch first. A globstar before a slash also matches with that slash
left out, which is tried before all else. -/
def search (pattern : List Atom) (path : List Char) (used : Nat) : Outcome :=
  if stepLimit ≤ used then ⟨false, used + 1⟩
  else
    match pattern with
    | [] => ⟨path.isEmpty, used + 1⟩
    | .star :: rest =>
        firstFound (fun tail steps => search rest tail steps) (segmentTails path) (used + 1)
    | .globstar :: .slash :: rest =>
        let skipped := search rest path (used + 1)
        if skipped.found then skipped
        else firstFound (fun tail steps => search (.slash :: rest) tail steps) (tails path)
          skipped.steps
    | .globstar :: rest =>
        firstFound (fun tail steps => search rest tail steps) (tails path) (used + 1)
    | atom :: rest =>
        match path with
        | [] => ⟨false, used + 1⟩
        | c :: tail => if atom.admits c then search rest tail (used + 1) else ⟨false, used + 1⟩

/-- The outcome of trying all alternatives of a pattern on a path. -/
def outcome (pattern path : String) : Outcome :=
  firstFound (fun alternative steps => search (atoms alternative) path.toList steps)
    (expand pattern.toList) 0

/-- Whether a pattern is found to match a whole path. -/
def accepts (pattern path : String) : Bool :=
  (outcome pattern path).found

end ScriptView.Glob
