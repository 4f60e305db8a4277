import Mathlib.Data.List.Basic
import ScriptView.Glob.Pattern

/-!
# The meaning of patterns

What a pattern without groups means is said here on the text of the pattern, by
one rule for each of its constructs and without a search: `Matches`. The same is
said once more on the atoms that a pattern is read as, and the two agree
(`matches_iff_divides`).
-/

namespace ScriptView.Glob

/-! ## Classes of characters -/

/-- The body of a class lists a character. A dash between two characters makes a
range of them; elsewhere it stands for itself, like every other character. -/
inductive Lists : List Char → Char → Prop where
  | inRange {low high c : Char} {rest : List Char} :
      low ≤ c → c ≤ high → Lists (low :: '-' :: high :: rest) c
  | behindRange {low high c : Char} {rest : List Char} :
      Lists rest c → Lists (low :: '-' :: high :: rest) c
  | here {c : Char} {rest : List Char} :
      (∀ high more, rest ≠ '-' :: high :: more) → Lists (c :: rest) c
  | later {first c : Char} {rest : List Char} :
      (∀ high more, rest ≠ '-' :: high :: more) → Lists rest c → Lists (first :: rest) c

/-- A text behind an opening bracket is a class of characters with a pattern
behind it. A closing bracket ends the class unless it comes first. -/
inductive OpensClass : (text : List Char) → (negated : Bool) → (body rest : List Char) → Prop where
  | listed {first : Char} {body rest : List Char} :
      first ≠ '!' → first ≠ '^' → ']' ∉ body →
      OpensClass (first :: body ++ ']' :: rest) false (first :: body) rest
  | negated {mark first : Char} {body rest : List Char} :
      mark = '!' ∨ mark = '^' → ']' ∉ body →
      OpensClass (mark :: first :: body ++ ']' :: rest) true (first :: body) rest

/-! ## Patterns -/

/-- A pattern without groups matches a path. -/
inductive Matches : (pattern path : List Char) → Prop where
  | nil : Matches [] []
  /-- A star alone stands for any text without a slash. -/
  | star {rest stretch path : List Char} :
      rest.head? ≠ some '*' → '/' ∉ stretch → Matches rest path →
      Matches ('*' :: rest) (stretch ++ path)
  /-- Two or more stars, taken all together, stand for any text. -/
  | stars {count : Nat} {rest stretch path : List Char} :
      2 ≤ count → rest.head? ≠ some '*' → Matches rest path →
      Matches (List.replicate count '*' ++ rest) (stretch ++ path)
  /-- With a slash behind them, they may be left out together with the slash. -/
  | noStars {count : Nat} {rest path : List Char} :
      2 ≤ count → Matches rest path → Matches (List.replicate count '*' ++ '/' :: rest) path
  /-- A question mark stands for one character that is not a slash. -/
  | anyChar {c : Char} {rest path : List Char} :
      c ≠ '/' → Matches rest path → Matches ('?' :: rest) (c :: path)
  /-- A class stands for one character that is not a slash and that it lists or,
  if it is negated, does not list. -/
  | oneOf {text body rest path : List Char} {negated : Bool} {c : Char} :
      OpensClass text negated body rest → c ≠ '/' → (Lists body c ↔ negated = false) →
      Matches rest path → Matches ('[' :: text) (c :: path)
  /-- A bracket that opens no class stands for itself. -/
  | bracket {rest path : List Char} :
      (∀ negated body behind, ¬OpensClass rest negated body behind) → Matches rest path →
      Matches ('[' :: rest) ('[' :: path)
  /-- A character behind a backslash stands for itself. -/
  | escaped {c : Char} {rest path : List Char} :
      Matches rest path → Matches ('\\' :: c :: rest) (c :: path)
  /-- A backslash with nothing behind it stands for itself. -/
  | backslash : Matches ['\\'] ['\\']
  /-- So does every other character. -/
  | literal {c : Char} {rest path : List Char} :
      c ∉ ['*', '?', '[', '\\'] → Matches rest path → Matches (c :: rest) (c :: path)

/-- A row of atoms matches a path if the path can be divided among them. -/
inductive Divides : List Atom → (path : List Char) → Prop where
  | nil : Divides [] []
  | star {rest : List Atom} {stretch path : List Char} :
      '/' ∉ stretch → Divides rest path → Divides (.star :: rest) (stretch ++ path)
  | globstar {rest : List Atom} {stretch path : List Char} :
      Divides rest path → Divides (.globstar :: rest) (stretch ++ path)
  | noGlobstar {rest : List Atom} {path : List Char} :
      Divides rest path → Divides (.globstar :: .slash :: rest) path
  | oneChar {atom : Atom} {c : Char} {rest : List Atom} {path : List Char} :
      atom.admits c = true → Divides rest path → Divides (atom :: rest) (c :: path)

/-! ## How classes are read -/

theorem not_lists_nil (c : Char) : ¬Lists [] c := by
  intro listed
  cases listed

theorem lists_range {low high c : Char} {rest : List Char} :
    Lists (low :: '-' :: high :: rest) c ↔ low ≤ c ∧ c ≤ high ∨ Lists rest c := by
  constructor
  · intro listed
    cases listed with
    | inRange above below => exact .inl ⟨above, below⟩
    | behindRange further => exact .inr further
    | here single => exact absurd rfl (single high rest)
    | later single => exact absurd rfl (single high rest)
  · rintro (inside | further)
    · exact .inRange inside.1 inside.2
    · exact .behindRange further

theorem lists_single {first c : Char} {rest : List Char}
    (single : ∀ high more, rest ≠ '-' :: high :: more) :
    Lists (first :: rest) c ↔ c = first ∨ Lists rest c := by
  constructor
  · intro listed
    cases listed with
    | inRange | behindRange => exact absurd rfl (single _ _)
    | here => exact .inl rfl
    | later _ further => exact .inr further
  · rintro (rfl | further)
    · exact .here single
    · exact .later single further

/-- Ranges stand for the body of a class that ends in a text, in front of `behind`. -/
structure StandFor (ranges : List (Char × Char)) (first : Bool) (body text behind : List Char) :
    Prop where
  text_eq : text = body ++ ']' :: behind
  nonempty : first = true → body ≠ []
  free : ']' ∉ if first then body.tail else body
  lists : ∀ c, Lists body c ↔ ∃ range ∈ ranges, range.1 ≤ c ∧ c ≤ range.2

namespace StandFor

variable {ranges : List (Char × Char)} {first : Bool} {low high : Char}
  {body text behind : List Char}

theorem nil (behind : List Char) : StandFor [] false [] (']' :: behind) behind where
  text_eq := rfl
  nonempty := by simp
  free := by simp
  lists c := by simp [not_lists_nil]

/-- A bracket in front of a body is its first character. -/
theorem free_cons (notClosing : ¬(low = ']' ∧ (!first) = true)) (free : ']' ∉ body) :
    ']' ∉ if first then (low :: body).tail else low :: body := by
  cases first with
  | true => exact free
  | false =>
      have notLow : low ≠ ']' := by simpa using notClosing
      simp [free, Ne.symm notLow]

theorem range (stands : StandFor ranges false body text behind)
    (notClosing : ¬(low = ']' ∧ (!first) = true)) (notBracket : high ≠ ']') :
    StandFor ((low, high) :: ranges) first (low :: '-' :: high :: body)
      (low :: '-' :: high :: text) behind where
  text_eq := by simp [stands.text_eq]
  nonempty _ := List.cons_ne_nil _ _
  free := by
    apply free_cons notClosing
    have free : ']' ∉ body := stands.free
    simp [free, Ne.symm notBracket]
  lists c := by simp [lists_range, stands.lists]

theorem single (stands : StandFor ranges false body text behind)
    (notClosing : ¬(low = ']' ∧ (!first) = true))
    (noRange : ∀ high more, high ≠ ']' → text ≠ '-' :: high :: more) :
    StandFor ((low, low) :: ranges) first (low :: body) (low :: text) behind where
  text_eq := by simp [stands.text_eq]
  nonempty _ := List.cons_ne_nil _ _
  free := free_cons notClosing stands.free
  lists c := by
    have free : ']' ∉ body := stands.free
    have alone : ∀ high more, body ≠ '-' :: high :: more := by
      rintro high more rfl
      apply noRange high (more ++ ']' :: behind)
      · rintro rfl
        simp at free
      · exact stands.text_eq
    have bounds : c = low ↔ low ≤ c ∧ c ≤ low :=
      ⟨fun same => same ▸ ⟨Char.le_refl _, Char.le_refl _⟩,
        fun both => Char.le_antisymm both.2 both.1⟩
    simp [lists_single alone, stands.lists, bounds]

end StandFor

/-- What is read from a class stands for a body that it starts with. -/
theorem exists_standFor_of_classRanges? {first : Bool} {text behind : List Char}
    {ranges : List (Char × Char)} (read : classRanges? first text = some (ranges, behind)) :
    ∃ body, StandFor ranges first body text behind := by
  fun_induction classRanges? first text generalizing ranges behind with
  | case1 => contradiction
  | case2 first low high rest closes =>
      rcases closes with ⟨rfl, notFirst⟩
      cases read
      cases first with
      | true => contradiction
      | false => exact ⟨[], .nil _⟩
  | case3 first low high rest notClosing notBracket ih =>
      rcases Option.map_eq_some_iff.mp read with ⟨⟨inner, last⟩, found, same⟩
      cases same
      rcases ih found with ⟨body, stands⟩
      exact ⟨_, stands.range notClosing notBracket⟩
  | case4 first low high rest notClosing bracket ih =>
      rcases Option.map_eq_some_iff.mp read with ⟨⟨inner, last⟩, found, same⟩
      cases same
      rcases ih found with ⟨body, stands⟩
      refine ⟨_, stands.single notClosing ?_⟩
      rintro other more notBracket same
      cases same
      exact bracket notBracket
  | case5 first low rest _ closes =>
      rcases closes with ⟨rfl, notFirst⟩
      cases read
      cases first with
      | true => contradiction
      | false => exact ⟨[], .nil _⟩
  | case6 first low rest noRange notClosing ih =>
      rcases Option.map_eq_some_iff.mp read with ⟨⟨inner, last⟩, found, same⟩
      cases same
      rcases ih found with ⟨body, stands⟩
      exact ⟨_, stands.single notClosing fun high more _ same => noRange high more same⟩

/-- A class that is closed is read. -/
theorem isSome_classRanges? {first : Bool} {text : List Char}
    (closed : ']' ∈ if first then text.tail else text) :
    (classRanges? first text).isSome = true := by
  fun_induction classRanges? first text with
  | case1 => cases ‹Bool› <;> simp at closed
  | case2 | case5 => rfl
  | case3 first low high rest notClosing notBracket ih =>
      rw [Option.isSome_map]
      apply ih
      cases first with
      | true => simpa [Ne.symm notBracket] using closed
      | false =>
          have notLow : low ≠ ']' := by simpa using notClosing
          simpa [Ne.symm notBracket, Ne.symm notLow] using closed
  | case4 first low high rest notClosing bracket ih =>
      rw [Option.isSome_map]
      apply ih
      have same : high = ']' := by simpa using bracket
      simp [same]
  | case6 first low rest noRange notClosing ih =>
      rw [Option.isSome_map]
      apply ih
      cases first with
      | true => exact closed
      | false =>
          have notLow : low ≠ ']' := by simpa using notClosing
          simpa [Ne.symm notLow] using closed

/-- A text is cut in one way at the first occurrence of a character. -/
theorem eq_and_eq_of_append_cons {stop : Char} {front other back last : List Char}
    (free : stop ∉ front) (freeOther : stop ∉ other)
    (same : front ++ stop :: back = other ++ stop :: last) : front = other ∧ back = last := by
  rcases List.append_eq_append_iff.mp same with ⟨more, rfl, split⟩ | ⟨more, rfl, split⟩
  · cases more with
    | nil => simpa using split
    | cons c more => simp_all
  · cases more with
    | nil => simpa using split.symm
    | cons c more => simp_all

/-- A class is read up to the bracket that closes it. -/
theorem exists_classRanges? {first : Char} {body : List Char} (free : ']' ∉ body)
    (behind : List Char) :
    ∃ ranges, classRanges? true (first :: body ++ ']' :: behind) = some (ranges, behind) ∧
      ∀ c, Lists (first :: body) c ↔ ∃ range ∈ ranges, range.1 ≤ c ∧ c ≤ range.2 := by
  have closed : (classRanges? true (first :: body ++ ']' :: behind)).isSome = true :=
    isSome_classRanges? (by simp)
  rcases Option.isSome_iff_exists.mp closed with ⟨⟨ranges, last⟩, read⟩
  rcases exists_standFor_of_classRanges? read with ⟨other, stands⟩
  cases other with
  | nil => exact absurd rfl (stands.nonempty rfl)
  | cons start more =>
      have split := stands.text_eq
      rw [List.cons_append, List.cons_append, List.cons.injEq] at split
      rcases split with ⟨rfl, split⟩
      have freeOther : ']' ∉ more := stands.free
      rcases eq_and_eq_of_append_cons free freeOther split with ⟨rfl, rfl⟩
      exact ⟨ranges, read, stands.lists⟩

theorem contains_iff {ranges : List (Char × Char)} {body : List Char} {negated : Bool} {c : Char}
    (lists : Lists body c ↔ ∃ range ∈ ranges, range.1 ≤ c ∧ c ≤ range.2) :
    CharClass.contains ⟨negated, ranges⟩ c = true ↔
      c ≠ '/' ∧ (Lists body c ↔ negated = false) := by
  have any : (ranges.any fun range => range.1 ≤ c && c ≤ range.2) = true ↔ Lists body c := by
    rw [lists, List.any_eq_true]
    simp
  change ((ranges.any fun range => range.1 ≤ c && c ≤ range.2) != negated && c != '/') = true ↔ _
  rw [Bool.and_eq_true, bne_iff_ne, bne_iff_ne, and_comm, ← any]
  cases negated <;> simp

/-- A class is read as what it is. -/
theorem exists_readClass? {text body rest : List Char} {negated : Bool}
    (opens : OpensClass text negated body rest) :
    ∃ set, readClass? text = some (set, rest) ∧
      ∀ c, set.contains c = true ↔ c ≠ '/' ∧ (Lists body c ↔ negated = false) := by
  cases opens with
  | listed notMark notCaret free =>
      rcases exists_classRanges? free rest with ⟨ranges, read, lists⟩
      refine ⟨⟨false, ranges⟩, ?_, fun c => contains_iff (lists c)⟩
      rw [readClass?.eq_def]
      split
      · next same =>
        cases same
        contradiction
      · next same =>
        cases same
        contradiction
      · rw [read]
        rfl
  | negated isMark free =>
      rcases exists_classRanges? free rest with ⟨ranges, read, lists⟩
      refine ⟨⟨true, ranges⟩, ?_, fun c => contains_iff (lists c)⟩
      rcases isMark with rfl | rfl
      · rw [List.cons_append, readClass?, read]
        rfl
      · rw [List.cons_append, readClass?, read]
        rfl

/-- A class that is read is one. -/
theorem exists_opensClass {text rest : List Char} {set : CharClass}
    (read : readClass? text = some (set, rest)) :
    ∃ negated body, OpensClass text negated body rest := by
  have opened : ∀ {text ranges}, classRanges? true text = some (ranges, rest) →
      ∃ first body, ']' ∉ body ∧ text = first :: body ++ ']' :: rest := by
    intro text ranges found
    rcases exists_standFor_of_classRanges? found with ⟨body, stands⟩
    cases body with
    | nil => exact absurd rfl (stands.nonempty rfl)
    | cons first body => exact ⟨first, body, stands.free, stands.text_eq⟩
  rw [readClass?.eq_def] at read
  split at read
  · rcases Option.map_eq_some_iff.mp read with ⟨⟨ranges, last⟩, found, same⟩
    cases same
    rcases opened found with ⟨first, body, free, rfl⟩
    exact ⟨true, first :: body, .negated (.inl rfl) free⟩
  · rcases Option.map_eq_some_iff.mp read with ⟨⟨ranges, last⟩, found, same⟩
    cases same
    rcases opened found with ⟨first, body, free, rfl⟩
    exact ⟨true, first :: body, .negated (.inr rfl) free⟩
  · next notMark notCaret =>
    rcases Option.map_eq_some_iff.mp read with ⟨⟨ranges, last⟩, found, same⟩
    cases same
    rcases opened found with ⟨first, body, free, rfl⟩
    refine ⟨false, first :: body, .listed ?_ ?_ free⟩
    · rintro rfl
      exact notMark _ rfl
    · rintro rfl
      exact notCaret _ rfl

theorem readClass?_eq_none {text : List Char} :
    readClass? text = none ↔ ∀ negated body rest, ¬OpensClass text negated body rest := by
  constructor
  · intro nothing negated body rest opens
    rcases exists_readClass? opens with ⟨set, read, -⟩
    rw [nothing] at read
    contradiction
  · intro unclosed
    cases read : readClass? text with
    | none => rfl
    | some found =>
        rcases exists_opensClass read with ⟨negated, body, opens⟩
        exact absurd opens (unclosed negated body found.2)

/-! ## How atoms are read -/

theorem atoms_star {rest : List Char} (alone : rest.head? ≠ some '*') :
    atoms ('*' :: rest) = .star :: atoms rest := by
  cases rest with
  | nil =>
      rw [atoms_cons]
      rfl
  | cons c rest =>
      have differs : c ≠ '*' := by simpa using alone
      rw [atoms_cons, readAtom.eq_def]
      simp [differs]

theorem atoms_stars {count : Nat} {rest : List Char} (many : 2 ≤ count)
    (ends : rest.head? ≠ some '*') :
    atoms (List.replicate count '*' ++ rest) = .globstar :: atoms rest := by
  obtain ⟨more, rfl⟩ : ∃ more, count = more + 2 := ⟨count - 2, by omega⟩
  have dropped : (List.replicate more '*' ++ rest).dropWhile (· == '*') = rest := by
    rw [List.dropWhile_append_of_pos (by simp)]
    cases rest with
    | nil => rfl
    | cons c rest =>
        have differs : c ≠ '*' := by simpa using ends
        simp [differs]
  rw [List.replicate_succ, List.replicate_succ, List.cons_append, List.cons_append, atoms_cons,
    readAtom, dropped]

theorem atoms_oneOf {text rest : List Char} {set : CharClass}
    (read : readClass? text = some (set, rest)) : atoms ('[' :: text) = .oneOf set :: atoms rest := by
  rw [atoms_cons, readAtom, read]

theorem atoms_bracket {rest : List Char} (read : readClass? rest = none) :
    atoms ('[' :: rest) = .literal '[' :: atoms rest := by
  rw [atoms_cons, readAtom, read]

theorem atoms_anyChar (rest : List Char) : atoms ('?' :: rest) = .anyChar :: atoms rest := by
  rw [atoms_cons]
  rfl

theorem atoms_slash (rest : List Char) : atoms ('/' :: rest) = .slash :: atoms rest := by
  rw [atoms_cons]
  rfl

theorem atoms_backslash : atoms ['\\'] = [.literal '\\'] := by
  rw [atoms_cons]
  change .literal '\\' :: atoms [] = _
  rw [atoms_nil]

theorem atoms_escaped (c : Char) (rest : List Char) :
    atoms ('\\' :: c :: rest) = .literal c :: atoms rest := by
  rw [atoms_cons, readAtom]

/-- Every other character is read as one that stands for itself alone. -/
theorem exists_atoms_literal {c : Char} (plain : c ∉ ['*', '?', '[', '\\']) (rest : List Char) :
    ∃ atom, atoms (c :: rest) = atom :: atoms rest ∧ ∀ d, atom.admits d = true ↔ d = c := by
  simp only [List.mem_cons, not_or, List.not_mem_nil, not_false_eq_true, and_true] at plain
  by_cases slash : c = '/'
  · subst slash
    exact ⟨.slash, atoms_slash rest, by simp [Atom.admits]⟩
  · refine ⟨.literal c, ?_, by simp [Atom.admits]⟩
    rw [atoms_cons, readAtom.eq_def]
    simp [plain]

/-- An atom that stands for a character is no star. -/
theorem Atom.not_star_of_admits {atom : Atom} {c : Char} (admitted : atom.admits c = true) :
    atom ≠ .star ∧ atom ≠ .globstar := by
  constructor
  · intro isStar
    rw [isStar] at admitted
    contradiction
  · intro isGlobstar
    rw [isGlobstar] at admitted
    contradiction

/-! ## Both meanings agree -/

namespace Divides

variable {rest : List Atom} {path : List Char}

theorem nil_iff : Divides [] path ↔ path = [] := by
  constructor
  · intro divides
    cases divides
    rfl
  · rintro rfl
    exact .nil

theorem star_iff : Divides (.star :: rest) path ↔
    ∃ stretch tail, path = stretch ++ tail ∧ '/' ∉ stretch ∧ Divides rest tail := by
  constructor
  · intro divides
    cases divides with
    | star noSlash further => exact ⟨_, _, rfl, noSlash, further⟩
    | oneChar admitted => contradiction
  · rintro ⟨stretch, tail, rfl, noSlash, further⟩
    exact .star noSlash further

theorem globstar_iff : Divides (.globstar :: rest) path ↔
    (∃ more, rest = .slash :: more ∧ Divides more path) ∨ ∃ tail, tail <:+ path ∧ Divides rest tail := by
  constructor
  · intro divides
    cases divides with
    | globstar further => exact .inr ⟨_, List.suffix_append _ _, further⟩
    | noGlobstar further => exact .inl ⟨_, rfl, further⟩
    | oneChar admitted => contradiction
  · rintro (⟨more, rfl, further⟩ | ⟨tail, ⟨stretch, rfl⟩, further⟩)
    · exact .noGlobstar further
    · exact .globstar further

theorem oneChar_iff {atom : Atom} (notStar : atom ≠ .star) (notGlobstar : atom ≠ .globstar) :
    Divides (atom :: rest) path ↔
      ∃ c tail, path = c :: tail ∧ atom.admits c = true ∧ Divides rest tail := by
  constructor
  · intro divides
    cases divides with
    | star | globstar | noGlobstar => contradiction
    | oneChar admitted further => exact ⟨_, _, rfl, admitted, further⟩
  · rintro ⟨c, tail, rfl, admitted, further⟩
    exact .oneChar admitted further

end Divides

theorem divides_of_matches {pattern path : List Char} (holds : Matches pattern path) :
    Divides (atoms pattern) path := by
  induction holds with
  | nil =>
      rw [atoms_nil]
      exact .nil
  | star alone noSlash _ ih =>
      rw [atoms_star alone]
      exact .star noSlash ih
  | stars many ends _ ih =>
      rw [atoms_stars many ends]
      exact .globstar ih
  | noStars many _ ih =>
      rw [atoms_stars many (by simp), atoms_slash]
      exact .noGlobstar ih
  | anyChar notSlash _ ih =>
      rw [atoms_anyChar]
      exact .oneChar (by simpa [Atom.admits] using notSlash) ih
  | oneOf opens notSlash lists _ ih =>
      rcases exists_readClass? opens with ⟨set, read, contains⟩
      rw [atoms_oneOf read]
      exact .oneChar ((contains _).mpr ⟨notSlash, lists⟩) ih
  | bracket unclosed _ ih =>
      rw [atoms_bracket (readClass?_eq_none.mpr unclosed)]
      exact .oneChar (by simp [Atom.admits]) ih
  | escaped _ ih =>
      rw [atoms_escaped]
      exact .oneChar (by simp [Atom.admits]) ih
  | backslash =>
      rw [atoms_backslash]
      exact .oneChar (by simp [Atom.admits]) .nil
  | literal plain _ ih =>
      rcases exists_atoms_literal plain _ with ⟨atom, read, admits⟩
      rw [read]
      exact .oneChar ((admits _).mpr rfl) ih

/-- A slash matches a slash and nothing else. -/
theorem Matches.of_slash {rest path : List Char} (holds : Matches ('/' :: rest) ('/' :: path)) :
    Matches rest path := by
  generalize patternEq : '/' :: rest = pattern at holds
  generalize pathEq : '/' :: path = whole at holds
  cases holds with
  | nil | star | anyChar | oneOf | bracket | escaped | backslash => simp at patternEq
  | stars many | noStars many =>
      obtain ⟨more, rfl⟩ := Nat.exists_eq_add_of_le many
      simp [Nat.add_comm 2, List.replicate_succ] at patternEq
  | literal _ further =>
      cases patternEq
      cases pathEq
      exact further

/-- What the stars at the front of a pattern are. -/
theorem exists_stars (rest : List Char) :
    ∃ count more, rest = List.replicate count '*' ++ more ∧ more.head? ≠ some '*' := by
  induction rest with
  | nil => exact ⟨0, [], rfl, by simp⟩
  | cons c rest ih =>
      by_cases star : c = '*'
      · rcases ih with ⟨count, more, rfl, ends⟩
        exact ⟨count + 1, more, by rw [star, List.replicate_succ, List.cons_append], ends⟩
      · exact ⟨0, c :: rest, rfl, by simpa using star⟩

/-- Only a slash is read as the atom of a slash. -/
theorem exists_slash_of_atoms {pattern : List Char} {others : List Atom}
    (read : atoms pattern = .slash :: others) : ∃ rest, pattern = '/' :: rest := by
  cases pattern with
  | nil => simp at read
  | cons c rest =>
      rw [atoms_cons, List.cons.injEq, readAtom.eq_def] at read
      have isSlash := read.1
      split at isSlash
      · contradiction
      · contradiction
      · contradiction
      · split at isSlash
        · contradiction
        · contradiction
      · contradiction
      · exact ⟨_, rfl⟩
      · contradiction

section Shorter

variable {rest path : List Char}
  (shorter : ∀ more : List Char, more.length ≤ rest.length → ∀ tail,
    Divides (atoms more) tail → Matches more tail)

include shorter

theorem matches_star_of_divides (divides : Divides (atoms ('*' :: rest)) path) :
    Matches ('*' :: rest) path := by
  rcases exists_stars rest with ⟨count, more, rfl, ends⟩
  cases count with
  | zero =>
      rw [List.replicate_zero, List.nil_append] at divides ⊢
      rw [atoms_star ends, Divides.star_iff] at divides
      rcases divides with ⟨stretch, tail, rfl, noSlash, further⟩
      exact .star ends noSlash (shorter more (by simp) tail further)
  | succ count =>
      have many : 2 ≤ count + 1 + 1 := Nat.le_add_left 2 count
      rw [← List.cons_append, ← List.replicate_succ] at divides ⊢
      rw [atoms_stars many ends, Divides.globstar_iff] at divides
      rcases divides with ⟨others, starts, further⟩ | ⟨tail, ⟨stretch, rfl⟩, further⟩
      · -- The atom behind the stars is a slash, and so is the character.
        have holds := shorter more (by simp) ('/' :: path)
          (by rw [starts]; exact .oneChar (by simp [Atom.admits]) further)
        rcases exists_slash_of_atoms starts with ⟨behind, rfl⟩
        exact .noStars many holds.of_slash
      · exact .stars many ends (shorter more (by simp) tail further)

theorem matches_bracket_of_divides (divides : Divides (atoms ('[' :: rest)) path) :
    Matches ('[' :: rest) path := by
  cases read : readClass? rest with
  | none =>
      rw [atoms_bracket read, Divides.oneChar_iff (by simp) (by simp)] at divides
      rcases divides with ⟨c, tail, rfl, admitted, further⟩
      have same : c = '[' := by simpa [Atom.admits] using admitted
      rw [same]
      exact .bracket (readClass?_eq_none.mp read) (shorter rest (Nat.le_refl _) tail further)
  | some found =>
      rcases found with ⟨set, behind⟩
      rcases exists_opensClass read with ⟨negated, body, opens⟩
      rcases exists_readClass? opens with ⟨sameSet, readAgain, contains⟩
      rw [read] at readAgain
      cases readAgain
      rw [atoms_oneOf read, Divides.oneChar_iff (by simp) (by simp)] at divides
      rcases divides with ⟨c, tail, rfl, admitted, further⟩
      rcases (contains c).mp admitted with ⟨notSlash, lists⟩
      have short := (readClass?_suffix read).length_le
      exact .oneOf opens notSlash lists (shorter behind short tail further)

theorem matches_backslash_of_divides (divides : Divides (atoms ('\\' :: rest)) path) :
    Matches ('\\' :: rest) path := by
  cases rest with
  | nil =>
      rw [atoms_backslash, Divides.oneChar_iff (by simp) (by simp)] at divides
      rcases divides with ⟨c, tail, rfl, admitted, further⟩
      have same : c = '\\' := by simpa [Atom.admits] using admitted
      rw [same, Divides.nil_iff.mp further]
      exact .backslash
  | cons escaped rest =>
      rw [atoms_escaped, Divides.oneChar_iff (by simp) (by simp)] at divides
      rcases divides with ⟨c, tail, rfl, admitted, further⟩
      have same : c = escaped := by simpa [Atom.admits] using admitted
      rw [same]
      exact .escaped (shorter rest (by simp) tail further)

theorem matches_anyChar_of_divides (divides : Divides (atoms ('?' :: rest)) path) :
    Matches ('?' :: rest) path := by
  rw [atoms_anyChar, Divides.oneChar_iff (by simp) (by simp)] at divides
  rcases divides with ⟨c, tail, rfl, admitted, further⟩
  exact .anyChar (by simpa [Atom.admits] using admitted)
    (shorter rest (Nat.le_refl _) tail further)

theorem matches_literal_of_divides {c : Char} (plain : c ∉ ['*', '?', '[', '\\'])
    (divides : Divides (atoms (c :: rest)) path) : Matches (c :: rest) path := by
  rcases exists_atoms_literal plain rest with ⟨atom, read, admits⟩
  obtain ⟨notStar, notGlobstar⟩ := Atom.not_star_of_admits ((admits c).mpr rfl)
  rw [read, Divides.oneChar_iff notStar notGlobstar] at divides
  rcases divides with ⟨d, tail, rfl, admitted, further⟩
  rw [(admits d).mp admitted]
  exact .literal plain (shorter rest (Nat.le_refl _) tail further)

end Shorter

theorem matches_of_divides : (pattern path : List Char) → Divides (atoms pattern) path →
    Matches pattern path
  | [], path, divides => by
      rw [atoms_nil, Divides.nil_iff] at divides
      rw [divides]
      exact .nil
  | c :: rest, path, divides => by
      have shorter : ∀ more : List Char, more.length ≤ rest.length → ∀ tail,
          Divides (atoms more) tail → Matches more tail := fun more short tail further =>
        matches_of_divides more tail further
      by_cases plain : c ∈ ['*', '?', '[', '\\']
      · simp only [List.mem_cons, List.not_mem_nil, or_false] at plain
        rcases plain with rfl | rfl | rfl | rfl
        · exact matches_star_of_divides shorter divides
        · exact matches_anyChar_of_divides shorter divides
        · exact matches_bracket_of_divides shorter divides
        · exact matches_backslash_of_divides shorter divides
      · exact matches_literal_of_divides shorter plain divides
termination_by pattern => pattern.length
decreasing_by exact Nat.lt_succ_of_le short

/-- A pattern matches a path exactly if its atoms divide the path among them. -/
theorem matches_iff_divides {pattern path : List Char} :
    Matches pattern path ↔ Divides (atoms pattern) path :=
  ⟨divides_of_matches, matches_of_divides pattern path⟩

end ScriptView.Glob
