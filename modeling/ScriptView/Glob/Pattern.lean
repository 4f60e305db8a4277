/-!
# Patterns without groups

A pattern without groups is a row of atoms. Every text is a pattern: a bracket
that opens no class and a backslash at the end stand for themselves.
-/

namespace ScriptView.Glob

/-- A class of characters: the ranges that it lists, or all others. -/
structure CharClass where
  negated : Bool
  ranges : List (Char × Char)
  deriving DecidableEq, Repr

/-- Whether a character belongs to a class. A slash belongs to none. -/
def CharClass.contains (set : CharClass) (c : Char) : Bool :=
  (set.ranges.any fun (first, last) => first ≤ c && c ≤ last) != set.negated && c != '/'

/-- What a pattern is made of. A run of two or more stars is one atom; a slash
is told from a slash behind a backslash, which is a literal. -/
inductive Atom where
  | literal (c : Char)
  | slash
  | anyChar
  | oneOf (set : CharClass)
  | star
  | globstar
  deriving DecidableEq, Repr

/-- Whether an atom stands for exactly this character. The stars, which stand
for stretches of text, do so for none. -/
def Atom.admits : Atom → Char → Bool
  | .literal d, c => c == d
  | .slash, c => c == '/'
  | .anyChar, c => c != '/'
  | .oneOf set, c => set.contains c
  | .star, _ | .globstar, _ => false

/-- The ranges of a class and the text behind its closing bracket. The bracket
is a member if it comes `first`. A dash is one, too, unless it has a character
on either side that is not the closing bracket. -/
def classRanges? (first : Bool) : List Char → Option (List (Char × Char) × List Char)
  | [] => none
  | low :: '-' :: high :: rest =>
      if low = ']' ∧ !first then some ([], '-' :: high :: rest)
      else if high ≠ ']' then
        (classRanges? false rest).map fun (ranges, behind) => ((low, high) :: ranges, behind)
      else
        (classRanges? false ('-' :: high :: rest)).map fun (ranges, behind) =>
          ((low, low) :: ranges, behind)
  | c :: rest =>
      if c = ']' ∧ !first then some ([], rest)
      else (classRanges? false rest).map fun (ranges, behind) => ((c, c) :: ranges, behind)

/-- The class whose opening bracket stands before this text, and the text behind
its closing bracket. -/
def readClass? : List Char → Option (CharClass × List Char)
  | '!' :: rest => (classRanges? true rest).map fun (ranges, behind) => (⟨true, ranges⟩, behind)
  | '^' :: rest => (classRanges? true rest).map fun (ranges, behind) => (⟨true, ranges⟩, behind)
  | text => (classRanges? true text).map fun (ranges, behind) => (⟨false, ranges⟩, behind)

theorem classRanges?_suffix {first : Bool} {text behind : List Char}
    {ranges : List (Char × Char)} (read : classRanges? first text = some (ranges, behind)) :
    behind <:+ text := by
  fun_induction classRanges? first text generalizing ranges behind with
  | case1 => simp at read
  | case2 => cases read; exact List.suffix_cons _ _
  | case3 first low high rest _ _ ih =>
    obtain ⟨⟨inner, last⟩, found, same⟩ := Option.map_eq_some_iff.mp read
    cases same
    exact (ih found).trans ⟨[low, '-', high], rfl⟩
  | case4 first low high rest _ _ ih =>
    obtain ⟨⟨inner, last⟩, found, same⟩ := Option.map_eq_some_iff.mp read
    cases same
    exact (ih found).trans (List.suffix_cons _ _)
  | case5 => cases read; exact List.suffix_cons _ _
  | case6 first c rest _ _ ih =>
    obtain ⟨⟨inner, last⟩, found, same⟩ := Option.map_eq_some_iff.mp read
    cases same
    exact (ih found).trans (List.suffix_cons _ _)

theorem readClass?_suffix {text behind : List Char} {set : CharClass}
    (read : readClass? text = some (set, behind)) : behind <:+ text := by
  rw [readClass?.eq_def] at read
  split at read
  · obtain ⟨⟨inner, last⟩, found, same⟩ := Option.map_eq_some_iff.mp read
    cases same
    exact (classRanges?_suffix found).trans (List.suffix_cons _ _)
  · obtain ⟨⟨inner, last⟩, found, same⟩ := Option.map_eq_some_iff.mp read
    cases same
    exact (classRanges?_suffix found).trans (List.suffix_cons _ _)
  · obtain ⟨⟨inner, last⟩, found, same⟩ := Option.map_eq_some_iff.mp read
    cases same
    exact classRanges?_suffix found

/-- The first atom of a pattern and the pattern behind it. -/
def readAtom (c : Char) (rest : List Char) : Atom × List Char :=
  match c, rest with
  | '*', '*' :: more => (.globstar, more.dropWhile (· == '*'))
  | '*', rest => (.star, rest)
  | '?', rest => (.anyChar, rest)
  | '[', rest =>
      match readClass? rest with
      | some (set, behind) => (.oneOf set, behind)
      | none => (.literal '[', rest)
  | '\\', escaped :: rest => (.literal escaped, rest)
  | '/', rest => (.slash, rest)
  | c, rest => (.literal c, rest)

/-- An atom takes at least one character. -/
theorem length_readAtom_le (c : Char) (rest : List Char) :
    (readAtom c rest).2.length ≤ rest.length := by
  rw [readAtom.eq_def]
  split
  · exact Nat.le_succ_of_le (List.dropWhile_suffix _).length_le
  · exact Nat.le_refl _
  · exact Nat.le_refl _
  · split
    · next read => exact (readClass?_suffix read).length_le
    · exact Nat.le_refl _
  · exact Nat.le_succ _
  · exact Nat.le_refl _
  · exact Nat.le_refl _

/-- The atoms of a pattern without groups. -/
def atoms (pattern : List Char) : List Atom :=
  match pattern with
  | [] => []
  | c :: rest => (readAtom c rest).1 :: atoms (readAtom c rest).2
termination_by pattern.length
decreasing_by exact Nat.lt_succ_of_le (length_readAtom_le c rest)

@[simp] theorem atoms_nil : atoms [] = [] := by rw [atoms]

theorem atoms_cons (c : Char) (rest : List Char) :
    atoms (c :: rest) = (readAtom c rest).1 :: atoms (readAtom c rest).2 := by
  rw [atoms]

end ScriptView.Glob
