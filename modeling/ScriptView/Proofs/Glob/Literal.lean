import Mathlib.Data.List.TakeWhile
import ScriptView.Glob.Literal
import ScriptView.Proofs.Glob.Search
import ScriptView.Proofs.Location
import ScriptView.Text.Search

/-!
# Patterns that begin literally

Characters that are not special stand for themselves, and a group does not reach what
stands in front of it. A literal text in front of a pattern is therefore in front of
all that the pattern matches, and behind it the pattern means what it means alone. The
longest such text that leads to a directory is the literal part of a pattern.
-/

namespace ScriptView.Glob

/-- Every character of a text stands for itself in a pattern. -/
def IsLiteral (text : List Char) : Prop :=
  ∀ c ∈ text, isSpecial c = false ∧ c ≠ '\\'

namespace IsLiteral

variable {c : Char} {text : List Char}

theorem head (literal : IsLiteral (c :: text)) : c ∉ ['*', '?', '[', '\\'] := by
  obtain ⟨plain, notBackslash⟩ := literal c List.mem_cons_self
  simp only [isSpecial, Bool.or_eq_false_iff, beq_eq_false_iff_ne] at plain
  simp [plain, notBackslash]

theorem tail (literal : IsLiteral (c :: text)) : IsLiteral text :=
  fun other member => literal other (List.mem_cons_of_mem c member)

theorem not_mem_brace (literal : IsLiteral text) : '{' ∉ text := by
  intro member
  have special := (literal '{' member).1
  contradiction

/-- What stands in front of the first special character is literal. -/
theorem takeWhile (noBackslash : '\\' ∉ text) : IsLiteral (text.takeWhile fun c => !isSpecial c) := by
  intro c member
  constructor
  · simpa using List.mem_takeWhile_imp member
  · intro isBackslash
    rw [isBackslash] at member
    exact noBackslash ((List.takeWhile_prefix _).subset member)

end IsLiteral

/-! ## Matching -/

section Matching

variable {front rest path : List Char}

/-- A pattern whose first atom stands for one character alone. -/
theorem matches_iff_of_atoms_eq {pattern : List Char} {atom : Atom} {c : Char}
    (read : atoms pattern = atom :: atoms rest) (admits : ∀ d, atom.admits d = true ↔ d = c) :
    Matches pattern path ↔ ∃ tail, path = c :: tail ∧ Matches rest tail := by
  obtain ⟨notStar, notGlobstar⟩ := Atom.not_star_of_admits ((admits c).mpr rfl)
  rw [matches_iff_divides, read, Divides.oneChar_iff notStar notGlobstar]
  simp only [admits, matches_iff_divides]
  constructor
  · intro divides
    obtain ⟨d, tail, isPath, rfl, further⟩ := divides
    exact ⟨tail, isPath, further⟩
  · intro divides
    obtain ⟨tail, isPath, further⟩ := divides
    exact ⟨c, tail, isPath, rfl, further⟩

theorem matches_cons_iff {c : Char} (plain : c ∉ ['*', '?', '[', '\\']) :
    Matches (c :: rest) path ↔ ∃ tail, path = c :: tail ∧ Matches rest tail := by
  obtain ⟨atom, read, admits⟩ := exists_atoms_literal plain rest
  exact matches_iff_of_atoms_eq read admits

/-- A literal text in front of a pattern is in front of what is matched. -/
theorem matches_append_iff (literal : IsLiteral front) :
    Matches (front ++ rest) path ↔ ∃ tail, path = front ++ tail ∧ Matches rest tail := by
  induction front generalizing path with
  | nil => simp
  | cons c front ih =>
      rw [List.cons_append, matches_cons_iff literal.head]
      constructor
      · intro starts
        obtain ⟨behind, rfl, further⟩ := starts
        obtain ⟨tail, rfl, holds⟩ := (ih literal.tail).mp further
        exact ⟨tail, rfl, holds⟩
      · intro starts
        obtain ⟨tail, rfl, holds⟩ := starts
        exact ⟨front ++ tail, rfl, (ih literal.tail).mpr ⟨tail, rfl, holds⟩⟩

theorem matches_nil_iff : Matches [] path ↔ path = [] := by
  rw [matches_iff_divides, atoms_nil, Divides.nil_iff]

end Matching

/-! ## Groups -/

section Groups

variable {front pattern : List Char}

/-- Every alternative of a group has fewer groups than the pattern. -/
theorem count_lt_of_mem_alternatives {group : Group} {alternative : List Char}
    (found : firstGroup? pattern = some group) (member : alternative ∈ alternatives 0 group.body) :
    (group.front ++ alternative ++ group.behind).count '{' < pattern.count '{' := by
  have fewer := count_le_of_mem_alternatives member
  rw [firstGroup?_eq_some found]
  simp only [List.count_append, List.count_cons_self, List.count_cons]
  omega

theorem firstGroup?_append (free : '{' ∉ front) :
    firstGroup? (front ++ pattern) =
      (firstGroup? pattern).map fun group => { group with front := front ++ group.front } := by
  have passed := Text.forall_bne_of_not_mem free
  rw [firstGroup?, firstGroup?, List.dropWhile_append_of_pos passed,
    List.takeWhile_append_of_pos passed]
  cases pattern.dropWhile (· != '{') with
  | nil => rfl
  | cons brace inner => rw [Option.map_map]; rfl

/-- Groups behind a text without braces are expanded with the text in front. -/
theorem expand_append (free : '{' ∉ front) (pattern : List Char) :
    expand (front ++ pattern) = (expand pattern).map (front ++ ·) := by
  cases found : firstGroup? pattern with
  | none =>
      have none : firstGroup? (front ++ pattern) = none := by
        rw [firstGroup?_append free, found]
        rfl
      rw [expand_of_firstGroup?_eq_none found, expand_of_firstGroup?_eq_none none]
      rfl
  | some group =>
      have foundToo : firstGroup? (front ++ pattern) =
          some { group with front := front ++ group.front } := by
        rw [firstGroup?_append free, found]
        rfl
      rw [expand_of_firstGroup?_eq_some found, expand_of_firstGroup?_eq_some foundToo,
        List.map_flatMap]
      apply List.flatMap_congr
      intro alternative member
      have fewer := count_lt_of_mem_alternatives found member
      have further := expand_append free (group.front ++ alternative ++ group.behind)
      rw [← further, List.append_assoc, List.append_assoc, List.append_assoc]
termination_by pattern.count '{'
decreasing_by exact fewer

theorem expand_of_isLiteral (literal : IsLiteral pattern) : expand pattern = [pattern] := by
  apply expand_of_firstGroup?_eq_none
  have passed := Text.forall_bne_of_not_mem literal.not_mem_brace
  rw [firstGroup?, List.dropWhile_eq_nil_iff.mpr passed]

end Groups

/-! ## Directories -/

/-- The written form of a place without special characters is literal in a pattern. -/
theorem isLiteral_text {place : Location} (plain : hasSpecial place.text = false) :
    IsLiteral place.text.toList := by
  intro c member
  constructor
  · have notSpecial := List.any_eq_false.mp plain c member
    simpa using notSpecial
  · intro isBackslash
    rw [isBackslash] at member
    exact (Location.isCanonical_text place).noBackslash member

theorem isLiteral_belowText {directory : Location} (plain : hasSpecial directory.text = false) :
    IsLiteral directory.belowText.toList := by
  intro c member
  rw [Location.belowText] at member
  split at member
  · rw [List.mem_singleton.mp member]
    decide
  · rw [String.toList_append, List.mem_append] at member
    cases member with
    | inl inText => exact isLiteral_text plain c inText
    | inr slash =>
        rw [List.mem_singleton.mp slash]
        decide

theorem parentPart_append {front behind : List Char} (free : '/' ∉ behind) :
    parentPart (front ++ '/' :: behind) = if front = [] then ['/'] else front := by
  have freeToo : '/' ∉ behind.reverse := fun member => free (List.mem_reverse.mp member)
  have passed := Text.forall_bne_of_not_mem freeToo
  rw [parentPart, List.reverse_append, List.reverse_cons, List.append_assoc,
    List.dropWhile_append_of_pos passed]
  cases split : front.reverse with
  | nil => simp [List.reverse_eq_nil_iff.mp split]
  | cons last others =>
      have nonempty : front ≠ [] := by
        intro nothing
        rw [nothing] at split
        cases split
      rw [if_neg nonempty, ← List.reverse_reverse front, split]
      simp

theorem hasSpecial_text_iff {place : Location} :
    hasSpecial place.text = true ↔ ∃ name ∈ place, hasSpecial name.text = true := by
  simp only [hasSpecial, List.any_eq_true]
  constructor
  · intro special
    obtain ⟨c, member, isSpecial⟩ := special
    cases Location.mem_text member with
    | inl isSlash =>
        rw [isSlash] at isSpecial
        contradiction
    | inr inName =>
        obtain ⟨name, isName, inside⟩ := inName
        exact ⟨name, isName, c, inside, isSpecial⟩
  · intro special
    obtain ⟨name, isName, c, inside, isSpecial⟩ := special
    refine ⟨c, ?_, isSpecial⟩
    rw [Location.toList_text_of_ne_nil (List.ne_nil_of_mem isName)]
    exact List.mem_flatMap.mpr ⟨name, isName, List.mem_cons_of_mem _ inside⟩

/-- Of the names with a special character one is the first. -/
theorem exists_first_special {place : Location} (special : hasSpecial place.text = true) :
    ∃ front name rest, place = front ++ name :: rest ∧ hasSpecial name.text = true ∧
      hasSpecial (Location.text front) = false := by
  have found := List.find?_isSome.mpr (hasSpecial_text_iff.mp special)
  obtain ⟨name, isFirst⟩ := Option.isSome_iff_exists.mp found
  obtain ⟨isSpecialName, front, rest, split, before⟩ := List.find?_eq_some_iff_append.mp isFirst
  refine ⟨front, name, rest, split, isSpecialName, ?_⟩
  apply Bool.eq_false_iff.mpr
  intro specialFront
  obtain ⟨other, member, isSpecialOther⟩ := hasSpecial_text_iff.mp specialFront
  have plainOther := before other member
  rw [isSpecialOther] at plainOther
  contradiction

/-- The literal part of a pattern is the directory that its names lead to before the first
one with a special character. -/
theorem exists_literalDirectory {place : Location} (special : hasSpecial place.text = true) :
    ∃ front rest, place = front ++ rest ∧ rest ≠ [] ∧ hasSpecial front.text = false ∧
      literalDirectory place.text = front.text := by
  obtain ⟨front, name, rest, rfl, isSpecialName, plain⟩ := exists_first_special special
  refine ⟨front, name :: rest, rfl, List.cons_ne_nil _ _, plain, ?_⟩
  have names : (Location.text (front ++ name :: rest)).toList =
      (front.flatMap fun name => '/' :: name.text.toList) ++
        '/' :: (name.text.toList ++ rest.flatMap fun name => '/' :: name.text.toList) := by
    rw [Location.toList_text_of_ne_nil (by simp), List.flatMap_append, List.flatMap_cons,
      List.cons_append]
  have passed : ∀ c ∈ front.flatMap fun name => '/' :: name.text.toList,
      (!isSpecial c) = true := by
    intro c member
    have literal := isLiteral_belowText plain c (by
      rw [Location.toList_belowText]
      exact List.mem_append_left _ member)
    rw [literal.1]
    rfl
  have stops : (name.text.toList ++ rest.flatMap fun name => '/' :: name.text.toList).takeWhile
      (fun c => !isSpecial c) = name.text.toList.takeWhile fun c => !isSpecial c := by
    rw [List.takeWhile_append, if_neg]
    intro whole
    have allPlain := List.takeWhile_eq_self_iff.mp ((List.takeWhile_prefix _).eq_of_length whole)
    obtain ⟨c, member, isSpecialChar⟩ := List.any_eq_true.mp isSpecialName
    have plainChar := allPlain c member
    rw [isSpecialChar] at plainChar
    contradiction
  have noSlash : '/' ∉ name.text.toList.takeWhile fun c => !isSpecial c := by
    intro member
    exact Location.not_mem_text_of_isSeparator name rfl ((List.takeWhile_prefix _).subset member)
  rw [literalDirectory, names, List.takeWhile_append_of_pos passed,
    List.takeWhile_cons_of_pos (by decide), stops, parentPart_append noSlash]
  cases front with
  | nil => rfl
  | cons first others =>
      rw [if_neg (by simp), ← Location.toList_text_cons, String.ofList_toList]

/-! ## Searching -/

section Searching

variable {front pattern path : String}

/-- Within the limit a search finds exactly the matches that there are. -/
theorem accepts_iff (within : (outcome pattern path).steps ≤ stepLimit) :
    accepts pattern path = true ↔
      ∃ alternative ∈ expand pattern.toList, Matches alternative path.toList := by
  have tells := tells_outcome pattern path
  constructor
  · exact tells.holds_of_found
  · intro holds
    by_contra refused
    exact tells.not_of_missed (Bool.eq_false_iff.mpr refused) within holds

theorem exists_matches_append_iff (literal : IsLiteral front.toList) :
    (∃ alternative ∈ expand (front ++ pattern).toList, Matches alternative path.toList) ↔
      ∃ tail, path = front ++ tail ∧
        ∃ alternative ∈ expand pattern.toList, Matches alternative tail.toList := by
  rw [String.toList_append, expand_append literal.not_mem_brace]
  simp only [List.mem_map, exists_exists_and_eq_and, matches_append_iff literal]
  constructor
  · intro matched
    obtain ⟨alternative, member, tail, isPath, holds⟩ := matched
    refine ⟨String.ofList tail, ?_, alternative, member, ?_⟩
    · apply String.toList_injective
      rw [isPath, String.toList_append, String.toList_ofList]
    · rwa [String.toList_ofList]
  · intro matched
    obtain ⟨tail, rfl, alternative, member, holds⟩ := matched
    exact ⟨alternative, member, tail.toList, String.toList_append, holds⟩

/-- A path that is accepted starts with the literal front of the pattern. -/
theorem exists_tail_of_accepts (literal : IsLiteral front.toList)
    (accepted : accepts (front ++ pattern) path = true) : ∃ tail, path = front ++ tail := by
  have holds := (tells_outcome (front ++ pattern) path).holds_of_found accepted
  obtain ⟨tail, isPath, -⟩ := (exists_matches_append_iff literal).mp holds
  exact ⟨tail, isPath⟩

/-- Within the limit a literal text in front of a pattern and a path makes no
difference. -/
theorem accepts_append (literal : IsLiteral front.toList)
    (within : (outcome (front ++ pattern) (front ++ path)).steps ≤ stepLimit)
    (withinToo : (outcome pattern path).steps ≤ stepLimit) :
    accepts (front ++ pattern) (front ++ path) = accepts pattern path := by
  rw [Bool.eq_iff_iff, accepts_iff within, accepts_iff withinToo,
    exists_matches_append_iff literal]
  constructor
  · intro matched
    obtain ⟨tail, same, holds⟩ := matched
    rw [(String.append_right_inj front).mp same]
    exact holds
  · intro holds
    exact ⟨path, rfl, holds⟩

/-- A row of atoms without stars takes at most one step for each atom, and one more. -/
theorem steps_search_le {pattern : List Atom} {path : List Char} {used : Nat}
    (noStar : ∀ atom ∈ pattern, atom ≠ .star ∧ atom ≠ .globstar) :
    (search pattern path used).steps ≤ used + pattern.length + 1 := by
  fun_induction search pattern path used with
  | case1 => simp
  | case2 => simp
  | case3 => exact absurd rfl (noStar _ List.mem_cons_self).1
  | case4 => exact absurd rfl (noStar _ List.mem_cons_self).2
  | case5 => exact absurd rfl (noStar _ List.mem_cons_self).2
  | case6 => exact absurd rfl (noStar _ List.mem_cons_self).2
  | case7 => simp
  | case8 used _ atom rest _ _ _ c tail _ ih =>
      have steps := ih fun other member => noStar other (List.mem_cons_of_mem _ member)
      rw [List.length_cons]
      omega
  | case9 => simp

/-- A pattern with one alternative and no star takes at most one step for each atom, and
one more. -/
theorem steps_outcome_le {alternative : List Char} (expanded : expand pattern.toList = [alternative])
    (noStar : ∀ atom ∈ atoms alternative, atom ≠ .star ∧ atom ≠ .globstar) :
    (outcome pattern path).steps ≤ (atoms alternative).length + 1 := by
  have steps := @steps_search_le _ path.toList 0 noStar
  rw [Nat.zero_add] at steps
  rw [outcome, expanded]
  simp only [firstFound]
  split <;> exact steps

/-- A literal text has one atom for each character, and no star. -/
theorem atoms_of_isLiteral {text : List Char} (literal : IsLiteral text) :
    (atoms text).length = text.length ∧ ∀ atom ∈ atoms text, atom ≠ .star ∧ atom ≠ .globstar := by
  induction text with
  | nil => simp
  | cons c rest ih =>
      obtain ⟨length, noStar⟩ := ih literal.tail
      obtain ⟨atom, read, admits⟩ := exists_atoms_literal literal.head rest
      rw [read, List.length_cons, List.length_cons, length, List.forall_mem_cons]
      exact ⟨rfl, Atom.not_star_of_admits ((admits c).mpr rfl), noStar⟩

/-- A literal pattern that is not too long accepts itself and nothing else. -/
theorem accepts_iff_eq (literal : IsLiteral pattern.toList) (short : pattern.length < stepLimit) :
    accepts pattern path = true ↔ path = pattern := by
  have expanded := expand_of_isLiteral literal
  have within : (outcome pattern path).steps ≤ stepLimit := by
    obtain ⟨length, noStar⟩ := atoms_of_isLiteral literal
    have steps := @steps_outcome_le _ path _ expanded noStar
    rw [length, String.length_toList] at steps
    exact Nat.le_trans steps short
  have whole := @matches_append_iff pattern.toList [] path.toList literal
  rw [List.append_nil] at whole
  rw [accepts_iff within, expanded, ← String.toList_inj]
  simp only [List.mem_singleton, exists_eq_left, whole, matches_nil_iff, exists_eq_right,
    List.append_nil]

end Searching

end ScriptView.Glob
