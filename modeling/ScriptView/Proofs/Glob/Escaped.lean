import ScriptView.Proofs.Glob.Groups

/-!
# Paths as patterns

A path is made a pattern by a backslash in front of each character that has a meaning in
patterns. A search heeds the backslashes, and the expansion of groups does not: the
braces of a path still make a group if they match, and then the pattern misses the path.
-/

namespace ScriptView.Glob

/-- The characters that have a meaning in patterns. -/
def isSyntax (c : Char) : Bool :=
  ['*', '?', '[', ']', '{', '}', ',', '\\'].contains c

/-- A text with a backslash in front of each character that has a meaning in patterns. -/
def escape : List Char → List Char
  | [] => []
  | c :: rest => if isSyntax c then '\\' :: c :: escape rest else c :: escape rest

/-- The pattern that is written for one path. -/
def escaped (path : String) : String :=
  String.ofList (escape path.toList)

section Escape

variable {c : Char} {text rest path : List Char}

theorem escape_of_isSyntax (special : isSyntax c = true) :
    escape (c :: text) = '\\' :: c :: escape text := by
  rw [escape, if_pos special]

theorem escape_of_plain (plain : isSyntax c = false) :
    escape (c :: text) = c :: escape text := by
  rw [escape, if_neg (Bool.not_eq_true _ ▸ plain)]

theorem escape_append (front back : List Char) :
    escape (front ++ back) = escape front ++ escape back := by
  induction front with
  | nil => rfl
  | cons c front ih =>
      cases special : isSyntax c with
      | true =>
          rw [List.cons_append, escape_of_isSyntax special, escape_of_isSyntax special, ih]
          rfl
      | false =>
          rw [List.cons_append, escape_of_plain special, escape_of_plain special, ih]
          rfl

theorem not_mem_of_plain (plain : isSyntax c = false) :
    c ∉ ['*', '?', '[', ']', '{', '}', ',', '\\'] := by
  simpa [isSyntax] using plain

theorem length_le_escape (text : List Char) : text.length ≤ (escape text).length := by
  induction text with
  | nil => exact Nat.le_refl 0
  | cons c text ih =>
      cases special : isSyntax c with
      | true =>
          rw [escape_of_isSyntax special]
          simp only [List.length_cons]
          omega
      | false =>
          rw [escape_of_plain special]
          simp only [List.length_cons]
          omega

theorem mem_escape_of_ne (differs : c ≠ '\\') : c ∈ escape text ↔ c ∈ text := by
  induction text with
  | nil => rfl
  | cons d text ih =>
      cases special : isSyntax d with
      | true => simp [escape_of_isSyntax special, ih, differs]
      | false => simp [escape_of_plain special, ih]

/-! ## Searching -/

/-- Each character of an escaped text is read as one that stands for itself alone. -/
theorem exists_atoms_escape (c : Char) (text rest : List Char) :
    ∃ atom, atoms (escape (c :: text) ++ rest) = atom :: atoms (escape text ++ rest) ∧
      ∀ d, atom.admits d = true ↔ d = c := by
  cases special : isSyntax c with
  | true =>
      refine ⟨.literal c, ?_, by simp [Atom.admits]⟩
      rw [escape_of_isSyntax special]
      exact atoms_escaped c _
  | false =>
      rw [escape_of_plain special]
      apply exists_atoms_literal
      have plain := not_mem_of_plain special
      simp only [List.mem_cons, not_or] at plain
      simp [plain]

/-- An escaped text in front of a pattern stands for the text. -/
theorem matches_escape_append_iff :
    Matches (escape text ++ rest) path ↔ ∃ tail, path = text ++ tail ∧ Matches rest tail := by
  induction text generalizing path with
  | nil => simp [escape]
  | cons c text ih =>
      obtain ⟨atom, read, admits⟩ := exists_atoms_escape c text rest
      rw [matches_iff_of_atoms_eq read admits]
      simp [ih]

/-- An escaped text has one atom for each character of the text, and no star. -/
theorem atoms_escape (text : List Char) :
    (atoms (escape text)).length = text.length ∧
      ∀ atom ∈ atoms (escape text), atom ≠ .star ∧ atom ≠ .globstar := by
  induction text with
  | nil => simp [escape]
  | cons c text ih =>
      obtain ⟨length, noStar⟩ := ih
      obtain ⟨atom, read, admits⟩ := exists_atoms_escape c text []
      rw [List.append_nil, List.append_nil] at read
      rw [read, List.length_cons, List.length_cons, length, List.forall_mem_cons]
      exact ⟨rfl, Atom.not_star_of_admits ((admits c).mpr rfl), noStar⟩

/-! ## Groups -/

/-- A group of a text is a group of the escaped text, and the backslash in front of the
closing brace is in it. -/
theorem closeGroup?_escape (depth : Nat) (text : List Char) :
    closeGroup? depth (escape text) =
      (closeGroup? depth text).map fun (body, behind) =>
        (escape body ++ ['\\'], escape behind) := by
  induction text generalizing depth with
  | nil => rfl
  | cons c text ih =>
      by_cases ends : c = '}' ∧ depth = 0
      · obtain ⟨rfl, rfl⟩ := ends
        rfl
      · have goesOn : c = '}' → depth ≠ 0 := fun closes atEnd => ends ⟨closes, atEnd⟩
        obtain ⟨inner, moves⟩ := exists_open_behind goesOn
        rw [closeGroup?_cons goesOn moves, Option.map_map]
        cases special : isSyntax c with
        | true =>
            have passed : closeGroup? depth ('\\' :: c :: escape text) =
                (closeGroup? depth (c :: escape text)).map fun (body, behind) =>
                  ('\\' :: body, behind) :=
              closeGroup?_cons (fun isClosing => nomatch isClosing) rfl
            rw [escape_of_isSyntax special, passed, closeGroup?_cons goesOn moves, ih]
            simp [Function.comp_def, escape_of_isSyntax special]
        | false =>
            rw [escape_of_plain special, closeGroup?_cons goesOn moves, ih]
            simp [Function.comp_def, escape_of_plain special]

theorem firstGroup?_escape (text : List Char) :
    firstGroup? (escape text) = (firstGroup? text).map fun group =>
      ⟨escape group.front ++ ['\\'], escape group.body ++ ['\\'], escape group.behind⟩ := by
  by_cases opened : '{' ∈ text
  · obtain ⟨front, inside, rfl, free⟩ := List.eq_append_cons_of_mem opened
    have split : escape (front ++ '{' :: inside) =
        (escape front ++ ['\\']) ++ '{' :: escape inside := by
      rw [escape_append, escape_of_isSyntax (by decide)]
      simp
    have freeToo : '{' ∉ escape front ++ ['\\'] := by
      simpa [mem_escape_of_ne] using free
    rw [split, firstGroup?_append_open freeToo, firstGroup?_append_open free, closeGroup?_escape,
      Option.map_map, Option.map_map]
    rfl
  · have none : ∀ {pattern : List Char}, '{' ∉ pattern → firstGroup? pattern = none := by
      intro pattern free
      apply firstGroup?_eq_none_iff.mpr
      intro opens
      obtain ⟨front, body, behind, rfl, -, -⟩ := opens
      exact free (by simp)
    have openedToo : '{' ∉ escape text := by
      rwa [mem_escape_of_ne (by decide)]
    rw [none opened, none openedToo]
    rfl

/-- A text that is not empty and does not start with an opening brace. -/
def StartsPlain (text : List Char) : Prop :=
  ∃ c rest, text = c :: rest ∧ c ≠ '{'

theorem startsPlain_modifyHead {row : List (List Char)} {change : List Char → List Char}
    (starts : ∀ entry ∈ row, StartsPlain entry) (changed : ∀ entry, StartsPlain (change entry)) :
    ∀ entry ∈ row.modifyHead change, StartsPlain entry := by
  cases row with
  | nil => exact starts
  | cons first others =>
      rw [List.modifyHead_cons, List.forall_mem_cons]
      exact ⟨changed first, (List.forall_mem_cons.mp starts).2⟩

/-- Every alternative of an escaped group starts with a backslash or a plain character:
neither a brace nor a comma comes without a backslash in front of it. -/
theorem startsPlain_of_mem_alternatives (depth : Nat) (text : List Char) :
    ∀ alternative ∈ alternatives depth (escape text ++ ['\\']), StartsPlain alternative := by
  have backslash : ∀ rest, StartsPlain ('\\' :: rest) := fun rest => ⟨_, rest, rfl, by decide⟩
  have passed : ∀ depth rest, alternatives depth ('\\' :: rest) =
      (alternatives depth rest).modifyHead ('\\' :: ·) := fun depth rest =>
    alternatives_cons (c := '\\') (by simp) rest
  induction text generalizing depth with
  | nil =>
      have read := passed depth []
      change ∀ alternative ∈ alternatives depth ['\\'], StartsPlain alternative
      rw [read, alternatives]
      simpa using backslash []
  | cons c text ih =>
      cases special : isSyntax c with
      | true =>
          rw [escape_of_isSyntax special, List.cons_append, List.cons_append, passed]
          by_cases separates : c = ',' ∧ depth = 0
          · obtain ⟨rfl, rfl⟩ := separates
            rw [alternatives_comma, List.modifyHead_cons, List.forall_mem_cons]
            exact ⟨backslash [], ih 0⟩
          · have joins : c = ',' → depth ≠ 0 := fun isComma top => separates ⟨isComma, top⟩
            rw [alternatives_cons joins, List.modifyHead_modifyHead]
            exact startsPlain_modifyHead (ih _) fun entry => backslash _
      | false =>
          have plain := not_mem_of_plain special
          simp only [List.mem_cons, not_or] at plain
          have joins : c = ',' → depth ≠ 0 := fun isComma => by simp [plain] at isComma
          rw [escape_of_plain special, List.cons_append, alternatives_cons joins]
          exact startsPlain_modifyHead (ih _) fun entry => ⟨c, entry, rfl, by simp [plain]⟩

/-- In every alternative of an escaped text with a group, another character stands in the
place of the brace that opens the group. -/
theorem exists_of_mem_expand_escape {front body behind alternative : List Char}
    (free : '{' ∉ front) (closes : Closes 0 body)
    (listed : alternative ∈ expand (escape (front ++ '{' :: (body ++ '}' :: behind)))) :
    ∃ c rest, alternative = escape front ++ '\\' :: c :: rest ∧ c ≠ '{' := by
  have found : firstGroup? (escape (front ++ '{' :: (body ++ '}' :: behind))) =
      some ⟨escape front ++ ['\\'], escape body ++ ['\\'], escape behind⟩ := by
    have here := (@firstGroup?_eq_some_iff _ ⟨front, body, behind⟩).mpr ⟨rfl, free, closes⟩
    rw [firstGroup?_escape, here]
    rfl
  rw [expand_of_firstGroup?_eq_some found] at listed
  obtain ⟨chosen, member, further⟩ := List.mem_flatMap.mp listed
  obtain ⟨c, rest, rfl, differs⟩ := startsPlain_of_mem_alternatives 0 body chosen member
  have freeToo : '{' ∉ escape front ++ ['\\', c] := by
    simp [mem_escape_of_ne, free, differs.symm]
  have cut : escape front ++ ['\\'] ++ c :: rest ++ escape behind =
      escape front ++ ['\\', c] ++ (rest ++ escape behind) := by simp
  dsimp only at further
  rw [cut, expand_append freeToo] at further
  obtain ⟨others, -, rfl⟩ := List.mem_map.mp further
  exact ⟨c, others, by simp, differs⟩

end Escape

/-! ## What an escaped path accepts -/

section Accepts

variable {path other : String}

/-- Without a group an escaped path accepts the path and nothing else. -/
theorem accepts_escaped_iff_eq (noGroup : ¬OpensGroup path.toList)
    (short : (escaped path).length < stepLimit) :
    accepts (escaped path) other = true ↔ other = path := by
  have expanded : expand (escaped path).toList = [escape path.toList] := by
    rw [escaped, String.toList_ofList]
    apply expand_of_firstGroup?_eq_none
    rw [firstGroup?_escape, firstGroup?_eq_none_iff.mpr noGroup]
    rfl
  obtain ⟨length, noStar⟩ := atoms_escape path.toList
  have within : (outcome (escaped path) other).steps ≤ stepLimit := by
    have steps := @steps_outcome_le _ other _ expanded noStar
    have longer := length_le_escape path.toList
    rw [escaped, String.length_ofList] at short
    omega
  have whole := @matches_escape_append_iff path.toList [] other.toList
  rw [List.append_nil] at whole
  rw [accepts_iff within, expanded, ← String.toList_inj]
  simp [whole, matches_nil_iff]

/-- With a group an escaped path does not accept the path: every alternative has another
character in the place of the brace that opens the group. -/
theorem accepts_escaped_self (group : OpensGroup path.toList) :
    accepts (escaped path) path = false := by
  obtain ⟨front, body, behind, split, free, closes⟩ := group
  apply Bool.eq_false_iff.mpr
  intro accepted
  obtain ⟨alternative, listed, holds⟩ := (tells_outcome _ _).holds_of_found accepted
  rw [escaped, String.toList_ofList, split] at listed
  obtain ⟨c, rest, rfl, differs⟩ := exists_of_mem_expand_escape free closes listed
  have admits : ∀ d, (Atom.literal c).admits d = true ↔ d = c := by simp [Atom.admits]
  obtain ⟨tail, isPath, behindFront⟩ := matches_escape_append_iff.mp holds
  obtain ⟨last, rfl, -⟩ := (matches_iff_of_atoms_eq (atoms_escaped c rest) admits).mp behindFront
  rw [split, List.append_cancel_left_eq, List.cons.injEq] at isPath
  exact differs isPath.1.symm

/-- An escaped path that is not too long accepts itself and nothing else, unless the first
brace of the path opens a group: then it does not accept the path. -/
theorem accepts_escaped (path : String) :
    (¬OpensGroup path.toList → (escaped path).length < stepLimit →
      ∀ other, accepts (escaped path) other = true ↔ other = path) ∧
    (OpensGroup path.toList → accepts (escaped path) path = false) := by
  constructor
  · intro noGroup short other
    exact accepts_escaped_iff_eq noGroup short
  · intro group
    exact accepts_escaped_self group

/-- Every character that has a meaning, with a brace that is closed too early, and a path
with braces that match. -/
theorem accepts_escaped_unmatched :
    (¬OpensGroup "/[!a]\x7d*?,\x7b\\".toList ∧ (escaped "/[!a]\x7d*?,\x7b\\").length < stepLimit ∧
      ∀ other, accepts (escaped "/[!a]\x7d*?,\x7b\\") other = true ↔ other = "/[!a]\x7d*?,\x7b\\") ∧
    OpensGroup "/\x7bid\x7d/x.ts".toList ∧
      accepts (escaped "/\x7bid\x7d/x.ts") "/\x7bid\x7d/x.ts" = false := by
  have unmatched : ¬OpensGroup "/[!a]\x7d*?,\x7b\\".toList := by decide +kernel
  have short : (escaped "/[!a]\x7d*?,\x7b\\").length < stepLimit := by decide +kernel
  have matched : OpensGroup "/\x7bid\x7d/x.ts".toList := by decide +kernel
  exact ⟨⟨unmatched, short, (accepts_escaped _).1 unmatched short⟩, matched,
    (accepts_escaped _).2 matched⟩

/-- Escaped braces are taken for a group: the path that they are in is missed, and another
one is accepted. -/
theorem escaped_braces_open :
    escaped "\x7ba\x7d" = "\\\x7ba\\\x7d" ∧ (escaped "\x7ba\x7d").length < stepLimit ∧
      accepts (escaped "\x7ba\x7d") "\x7ba\x7d" = false ∧
      accepts (escaped "\x7ba\x7d") "a\\" = true := by
  decide +kernel

end Accepts

end ScriptView.Glob
