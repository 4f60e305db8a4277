import Mathlib.Algebra.GroupWithZero.Nat
import ScriptView.Proofs.Glob.Literal

/-!
# What groups stand for

A brace that opens a group is closed by the first brace that leaves nothing open in
between, and the first group of a pattern is the one that its first brace opens. A
pattern of texts and groups, nested to any depth, is a tree, and expanding it lists the
choices that the tree leaves, one for each way to choose. Expansion ends for every
pattern, and what it lists is not expanded any further.
-/

namespace ScriptView.Glob

/-! ## Braces that match -/

/-- Behind `depth` open braces a text closes each of them and each that it opens itself,
and it closes no brace that is not open. -/
structure Closes (depth : Nat) (text : List Char) : Prop where
  open_before : ∀ front, front <+: text → front.count '}' ≤ depth + front.count '{'
  closes_all : text.count '}' = depth + text.count '{'

section Braces

variable {depth inner : Nat} {c : Char} {text other behind : List Char}

theorem closes_of_not_mem (noOpening : '{' ∉ text) (noClosing : '}' ∉ text) : Closes 0 text where
  open_before front before := by
    have none := List.count_eq_zero_of_not_mem fun member => noClosing (before.subset member)
    omega
  closes_all := by
    have noneOpened := List.count_eq_zero_of_not_mem noOpening
    have noneClosed := List.count_eq_zero_of_not_mem noClosing
    omega

theorem Closes.append (closes : Closes depth text) (further : Closes inner other) :
    Closes (depth + inner) (text ++ other) where
  open_before front before := by
    cases List.prefix_or_prefix_of_prefix before (List.prefix_append text other) with
    | inl inText =>
        have kept := closes.open_before front inText
        omega
    | inr passed =>
        obtain ⟨inOther, rfl⟩ := passed
        have whole := closes.closes_all
        have kept := further.open_before inOther ((List.prefix_append_right_inj text).mp before)
        simp only [List.count_append]
        omega
  closes_all := by
    have here := closes.closes_all
    have there := further.closes_all
    simp only [List.count_append]
    omega

theorem closes_flatMap {α : Type} {row : List α} {part : α → List Char}
    (closes : ∀ entry ∈ row, Closes 0 (part entry)) : Closes 0 (row.flatMap part) := by
  induction row with
  | nil => exact closes_of_not_mem List.not_mem_nil List.not_mem_nil
  | cons entry row ih =>
      rw [List.flatMap_cons]
      exact (closes entry List.mem_cons_self).append
        (ih fun other member => closes other (List.mem_cons_of_mem entry member))

theorem closes_nil_iff : Closes depth [] ↔ depth = 0 := by
  constructor
  · intro closes
    have all := closes.closes_all
    simpa using all.symm
  · intro nothing
    rw [nothing]
    exact closes_of_not_mem List.not_mem_nil List.not_mem_nil

/-- Whether braces match is told from the second character on, with the braces that are
open in front of it. -/
theorem closes_cons_iff (moves : depth + [c].count '{' = inner + [c].count '}') :
    Closes depth (c :: text) ↔ Closes inner text := by
  have counts : ∀ brace front, (c :: front).count brace = [c].count brace + front.count brace :=
    fun brace front => @List.count_append _ _ brace [c] front
  constructor
  · intro closes
    constructor
    · intro front before
      have kept := closes.open_before (c :: front) (List.cons_prefix_cons.mpr ⟨rfl, before⟩)
      rw [counts '{' front, counts '}' front] at kept
      omega
    · have all := closes.closes_all
      rw [counts '{' text, counts '}' text] at all
      omega
  · intro closes
    constructor
    · intro front before
      cases List.prefix_cons_iff.mp before with
      | inl nothing => simp [nothing]
      | inr some =>
          obtain ⟨front, rfl, inside⟩ := some
          have kept := closes.open_before front inside
          rw [counts '{' front, counts '}' front]
          omega
    · have all := closes.closes_all
      rw [counts '{' text, counts '}' text]
      omega

theorem Closes.group (closes : Closes 0 text) : Closes 0 ('{' :: (text ++ ['}'])) := by
  have closing : Closes 1 ['}'] := (closes_cons_iff rfl).mpr (closes_nil_iff.mpr rfl)
  have opened := closes.append closing
  exact (closes_cons_iff rfl).mpr opened

theorem not_closes_close : ¬Closes 0 ('}' :: text) := by
  intro closes
  have kept := closes.open_before ['}'] (List.cons_prefix_cons.mpr ⟨rfl, List.nil_prefix⟩)
  contradiction

theorem closeGroup?_cons (goesOn : c = '}' → depth ≠ 0)
    (moves : depth + [c].count '{' = inner + [c].count '}') :
    closeGroup? depth (c :: text) =
      (closeGroup? inner text).map fun (body, behind) => (c :: body, behind) := by
  rw [closeGroup?.eq_def]
  by_cases opens : c = '{'
  · have deeper : inner = depth + 1 := by simpa [opens] using moves.symm
    simp [opens, deeper]
  · by_cases closes : c = '}'
    · cases depth with
      | zero => exact absurd rfl (goesOn closes)
      | succ depth =>
          have higher : inner = depth := by simpa [closes] using moves.symm
          simp [closes, higher]
    · have same : inner = depth := by simpa [opens, closes] using moves.symm
      simp [opens, closes, same]

/-- Each character but the brace that ends a group leaves some number of braces open. -/
theorem exists_open_behind (goesOn : c = '}' → depth ≠ 0) :
    ∃ inner, depth + [c].count '{' = inner + [c].count '}' := by
  refine ⟨depth + [c].count '{' - [c].count '}', (Nat.sub_add_cancel ?_).symm⟩
  by_cases closes : c = '}'
  · have notNone := goesOn closes
    simp only [closes, List.count_singleton_self]
    omega
  · simp [closes]

theorem closeGroup?_close : closeGroup? 0 ('}' :: text) = some ([], text) := rfl

/-- The body of a group is the text in front of the first brace that closes it. -/
theorem closeGroup?_eq_some_iff {body : List Char} :
    closeGroup? depth text = some (body, behind) ↔
      text = body ++ '}' :: behind ∧ Closes depth body := by
  induction text generalizing depth body with
  | nil => simp [closeGroup?]
  | cons c rest ih =>
      by_cases ends : c = '}' ∧ depth = 0
      · obtain ⟨rfl, rfl⟩ := ends
        rw [closeGroup?_close]
        constructor
        · intro found
          cases found
          exact ⟨rfl, closes_nil_iff.mpr rfl⟩
        · intro found
          obtain ⟨split, closes⟩ := found
          cases body with
          | nil =>
              cases split
              rfl
          | cons d body =>
              cases split
              exact absurd closes not_closes_close
      · have goesOn : c = '}' → depth ≠ 0 := fun closes atEnd => ends ⟨closes, atEnd⟩
        obtain ⟨inner, moves⟩ := exists_open_behind goesOn
        rw [closeGroup?_cons goesOn moves, Option.map_eq_some_iff]
        constructor
        · intro found
          obtain ⟨⟨inside, last⟩, closed, same⟩ := found
          cases same
          obtain ⟨split, closes⟩ := ih.mp closed
          exact ⟨by rw [split, List.cons_append], (closes_cons_iff moves).mpr closes⟩
        · intro found
          obtain ⟨split, closes⟩ := found
          cases body with
          | nil =>
              cases split
              exact absurd (closes_nil_iff.mp closes) (goesOn rfl)
          | cons d body =>
              cases split
              exact ⟨(body, behind), ih.mpr ⟨rfl, (closes_cons_iff moves).mp closes⟩, rfl⟩

end Braces

/-! ## The first group -/

section FirstGroup

variable {pattern : List Char}

/-- The first brace of a pattern opens a group: a brace behind it matches it. -/
def OpensGroup (pattern : List Char) : Prop :=
  ∃ front body behind, pattern = front ++ '{' :: (body ++ '}' :: behind) ∧ '{' ∉ front ∧
    Closes 0 body

theorem firstGroup?_append_open {front inside : List Char} (free : '{' ∉ front) :
    firstGroup? (front ++ '{' :: inside) =
      (closeGroup? 0 inside).map fun (body, behind) => ⟨front, body, behind⟩ := by
  rw [firstGroup?_append free]
  simp [firstGroup?, Function.comp_def]

theorem firstGroup?_eq_some_iff {group : Group} :
    firstGroup? pattern = some group ↔
      pattern = group.front ++ '{' :: (group.body ++ '}' :: group.behind) ∧
        '{' ∉ group.front ∧ Closes 0 group.body := by
  constructor
  · intro found
    have opened : '{' ∈ pattern := by
      rw [firstGroup?_eq_some found]
      simp
    obtain ⟨front, inside, rfl, free⟩ := List.eq_append_cons_of_mem opened
    rw [firstGroup?_append_open free] at found
    obtain ⟨⟨body, behind⟩, closed, rfl⟩ := Option.map_eq_some_iff.mp found
    obtain ⟨rfl, closes⟩ := closeGroup?_eq_some_iff.mp closed
    exact ⟨rfl, free, closes⟩
  · intro written
    obtain ⟨split, free, closes⟩ := written
    rw [split, firstGroup?_append_open free, closeGroup?_eq_some_iff.mpr ⟨rfl, closes⟩]
    rfl

theorem firstGroup?_eq_none_iff : firstGroup? pattern = none ↔ ¬OpensGroup pattern := by
  constructor
  · intro none opens
    obtain ⟨front, body, behind, written⟩ := opens
    have found := (@firstGroup?_eq_some_iff _ ⟨front, body, behind⟩).mpr written
    rw [none] at found
    contradiction
  · intro noGroup
    cases found : firstGroup? pattern with
    | none => rfl
    | some group =>
        exact absurd ⟨_, _, _, firstGroup?_eq_some_iff.mp found⟩ noGroup

instance (pattern : List Char) : Decidable (OpensGroup pattern) :=
  decidable_of_iff (firstGroup? pattern ≠ none)
    ((not_congr firstGroup?_eq_none_iff).trans Classical.not_not)

end FirstGroup

/-! ## Expansion -/

section Expansion

variable {pattern result : List Char}

/-- Expansion goes on from a pattern to another one: its first group gives way to one of
the alternatives. -/
inductive GoesOnTo (pattern : List Char) : List Char → Prop where
  | choose {group : Group} {alternative : List Char} (found : firstGroup? pattern = some group)
      (member : alternative ∈ alternatives 0 group.body) :
      GoesOnTo pattern (group.front ++ alternative ++ group.behind)

/-- Expansion goes on and on from no pattern. -/
theorem wellFounded_goesOnTo : WellFounded fun next pattern => GoesOnTo pattern next := by
  apply Subrelation.wf (r := fun next pattern => next.count '{' < pattern.count '{')
  · intro next pattern goesOn
    cases goesOn with
    | choose found member => exact count_lt_of_mem_alternatives found member
  · exact (measure fun pattern : List Char => pattern.count '{').wf

/-- What expansion lists is not expanded any further. -/
theorem firstGroup?_eq_none_of_mem_expand (listed : result ∈ expand pattern) :
    firstGroup? result = none := by
  induction pattern using wellFounded_goesOnTo.induction with
  | h pattern ih =>
      cases found : firstGroup? pattern with
      | none =>
          rw [expand_of_firstGroup?_eq_none found, List.mem_singleton] at listed
          rw [listed]
          exact found
      | some group =>
          rw [expand_of_firstGroup?_eq_some found] at listed
          obtain ⟨alternative, member, further⟩ := List.mem_flatMap.mp listed
          exact ih _ (.choose found member) further

end Expansion

/-! ## Alternatives -/

section Alternatives

variable {depth : Nat} {c : Char} {text other : List Char}

theorem alternatives_ne_nil (depth : Nat) (text : List Char) : alternatives depth text ≠ [] := by
  cases text with
  | nil => simp [alternatives]
  | cons c rest =>
      rw [alternatives]
      dsimp only
      split
      · exact List.cons_ne_nil _ _
      · split <;> exact List.cons_ne_nil _ _

theorem alternatives_comma (rest : List Char) :
    alternatives 0 (',' :: rest) = [] :: alternatives 0 rest := by
  rw [alternatives, if_pos ⟨rfl, rfl⟩]

/-- A character that separates no alternatives belongs to the first one. -/
theorem alternatives_cons (joins : c = ',' → depth ≠ 0) (rest : List Char) :
    alternatives depth (c :: rest) =
      (alternatives (if c = '{' then depth + 1 else if c = '}' then depth - 1 else depth)
        rest).modifyHead (c :: ·) := by
  rw [alternatives, if_neg fun separates => joins separates.1 separates.2]
  dsimp only
  cases found : alternatives (if c = '{' then depth + 1 else if c = '}' then depth - 1 else depth)
      rest with
  | nil => exact absurd found (alternatives_ne_nil _ _)
  | cons first others => rfl

/-- A text that belongs to the first alternative, whatever follows it. -/
def IsJoined (depth : Nat) (text : List Char) : Prop :=
  ∀ rest, alternatives depth (text ++ rest) = (alternatives depth rest).modifyHead (text ++ ·)

theorem isJoined_nil : IsJoined depth [] := by
  intro rest
  rw [List.nil_append]
  cases alternatives depth rest <;> rfl

theorem IsJoined.append (joined : IsJoined depth text) (further : IsJoined depth other) :
    IsJoined depth (text ++ other) := by
  intro rest
  rw [List.append_assoc, joined, further, List.modifyHead_modifyHead]
  simp [Function.comp_def]

theorem isJoined_flatMap {α : Type} {row : List α} {part : α → List Char}
    (joined : ∀ entry ∈ row, IsJoined depth (part entry)) : IsJoined depth (row.flatMap part) := by
  induction row with
  | nil => exact isJoined_nil
  | cons entry row ih =>
      rw [List.flatMap_cons]
      exact (joined entry List.mem_cons_self).append
        (ih fun other member => joined other (List.mem_cons_of_mem entry member))

theorem isJoined_singleton (joins : c = ',' → depth ≠ 0) (noBrace : c ≠ '{' ∧ c ≠ '}') :
    IsJoined depth [c] := by
  intro rest
  have read := alternatives_cons joins rest
  rw [if_neg noBrace.1, if_neg noBrace.2] at read
  exact read

/-- A text without braces and separating commas. -/
theorem isJoined_of_not_mem (joins : ',' ∈ text → depth ≠ 0) (noBrace : '{' ∉ text ∧ '}' ∉ text) :
    IsJoined depth text := by
  have whole : text = text.flatMap fun c => [c] := by simp
  rw [whole]
  apply isJoined_flatMap
  intro c member
  apply isJoined_singleton
  · intro comma
    exact joins (comma ▸ member)
  · constructor
    · intro opens
      exact noBrace.1 (opens ▸ member)
    · intro closes
      exact noBrace.2 (closes ▸ member)

/-- A group belongs to the alternative it stands in. -/
theorem IsJoined.group (joined : IsJoined (depth + 1) text) :
    IsJoined depth ('{' :: (text ++ ['}'])) := by
  intro rest
  have opens := @alternatives_cons depth '{' (by simp) (text ++ ('}' :: rest))
  have closes := @alternatives_cons (depth + 1) '}' (by simp) rest
  rw [if_pos rfl, joined] at opens
  rw [if_neg (by decide), if_pos rfl, Nat.add_sub_cancel] at closes
  rw [closes, List.modifyHead_modifyHead, List.modifyHead_modifyHead] at opens
  simpa [Function.comp_def] using opens

end Alternatives

/-! ## Trees of texts and groups -/

/-- A pattern as a tree: texts without braces, put one behind the other, and groups of
at least one alternative. A text inside a group has no comma. -/
inductive GroupTree : (inGroup : Bool) → Type where
  | text {inGroup : Bool} (text : List Char) (noBrace : '{' ∉ text ∧ '}' ∉ text)
      (noComma : inGroup = true → ',' ∉ text) : GroupTree inGroup
  | append {inGroup : Bool} (first second : GroupTree inGroup) : GroupTree inGroup
  | group {inGroup : Bool} (first : GroupTree true) (others : List (GroupTree true)) :
      GroupTree inGroup

namespace GroupTree

/-- What holds of a group if it holds of its alternatives holds of every tree. -/
@[elab_as_elim, induction_eliminator]
theorem induct {motive : (inGroup : Bool) → GroupTree inGroup → Prop}
    (text : ∀ {inGroup} text noBrace noComma, motive inGroup (.text text noBrace noComma))
    (append : ∀ {inGroup} first second, motive inGroup first → motive inGroup second →
      motive inGroup (.append first second))
    (group : ∀ {inGroup} first others, motive true first → (∀ other ∈ others, motive true other) →
      motive inGroup (.group first others)) :
    ∀ {inGroup} (tree : GroupTree inGroup), motive inGroup tree
  | _, .text chars noBrace noComma => text chars noBrace noComma
  | _, .append first second =>
      append first second (induct text append group first) (induct text append group second)
  | _, .group first others =>
      group first others (induct text append group first) fun other _ =>
        induct text append group other

/-- The pattern that a tree is written as. -/
def source : {inGroup : Bool} → GroupTree inGroup → List Char
  | _, .text chars _ _ => chars
  | _, .append first second => first.source ++ second.source
  | _, .group first others =>
      '{' :: (first.source ++ others.flatMap (fun other => ',' :: other.source) ++ ['}'])

/-- The alternatives of a group as they are written between its braces. -/
def body (first : GroupTree true) (others : List (GroupTree true)) : List Char :=
  first.source ++ others.flatMap fun other => ',' :: other.source

@[simp] theorem source_group {inGroup : Bool} (first : GroupTree true)
    (others : List (GroupTree true)) :
    (@group inGroup first others).source = '{' :: (body first others ++ ['}']) := by
  rw [source, body]

/-- The texts that are left when each group gives way to one of its alternatives. The
first group changes slowest, and an alternative faster than the group it is in. -/
def choices : {inGroup : Bool} → GroupTree inGroup → List (List Char)
  | _, .text chars _ _ => [chars]
  | _, .append first second =>
      first.choices.flatMap fun front => second.choices.map fun back => front ++ back
  | _, .group first others => first.choices ++ others.flatMap choices

/-- The number of ways to choose. -/
def ways : {inGroup : Bool} → GroupTree inGroup → Nat
  | _, .text _ _ _ => 1
  | _, .append first second => first.ways * second.ways
  | _, .group first others => first.ways + (others.map ways).sum

theorem length_choices {inGroup : Bool} (tree : GroupTree inGroup) :
    tree.choices.length = tree.ways := by
  induction tree with
  | text chars noBrace noComma => simp [choices, ways]
  | append first second ihFirst ihSecond =>
      simp [choices, ways, List.length_flatMap, ihFirst, ihSecond]
  | group first others ihFirst ihOthers =>
      simp only [choices, ways, List.length_append, List.length_flatMap, ihFirst]
      rw [List.map_congr_left ihOthers]

theorem closes_body {first : GroupTree true} {others : List (GroupTree true)}
    (closesFirst : Closes 0 first.source) (closesOthers : ∀ other ∈ others, Closes 0 other.source) :
    Closes 0 (body first others) := by
  have further : Closes 0 (others.flatMap fun other => ',' :: other.source) := by
    apply closes_flatMap
    intro other member
    have comma : Closes 0 [','] := closes_of_not_mem (by decide) (by decide)
    exact comma.append (closesOthers other member)
  exact closesFirst.append further

/-- The braces of a tree match. -/
theorem closes_source {inGroup : Bool} (tree : GroupTree inGroup) : Closes 0 tree.source := by
  induction tree with
  | text chars noBrace noComma =>
      rw [source]
      exact closes_of_not_mem noBrace.1 noBrace.2
  | append first second ihFirst ihSecond =>
      rw [source]
      exact ihFirst.append ihSecond
  | group first others ihFirst ihOthers =>
      rw [source_group]
      exact (closes_body ihFirst ihOthers).group

theorem isJoined_source {inGroup : Bool} (tree : GroupTree inGroup) (inside : inGroup = true)
    (depth : Nat) : IsJoined depth tree.source := by
  induction tree generalizing depth with
  | text chars noBrace noComma =>
      rw [source]
      exact isJoined_of_not_mem (fun member => absurd member (noComma inside)) noBrace
  | append first second ihFirst ihSecond =>
      rw [source]
      exact (ihFirst inside depth).append (ihSecond inside depth)
  | group first others ihFirst ihOthers =>
      have further : IsJoined (depth + 1) (others.flatMap fun other => ',' :: other.source) := by
        apply isJoined_flatMap
        intro other member
        have comma : IsJoined (depth + 1) [','] := isJoined_singleton (by simp) (by decide)
        exact comma.append (ihOthers other member rfl (depth + 1))
      rw [source_group]
      exact ((ihFirst rfl (depth + 1)).append further).group

/-- The alternatives of a group are the ones that it is written with. -/
theorem alternatives_body (first : GroupTree true) (others : List (GroupTree true)) :
    alternatives 0 (body first others) = first.source :: others.map source := by
  induction others generalizing first with
  | nil =>
      rw [body, first.isJoined_source rfl]
      simp [alternatives]
  | cons second others ih =>
      have further := ih second
      rw [body] at further
      rw [body, first.isJoined_source rfl, List.flatMap_cons, List.cons_append, alternatives_comma,
        further]
      simp

/-- A tree in front of a pattern is expanded first, choice by choice. -/
theorem expand_source_append {inGroup : Bool} (tree : GroupTree inGroup) (rest : List Char) :
    expand (tree.source ++ rest) =
      tree.choices.flatMap fun choice => (expand rest).map fun back => choice ++ back := by
  induction tree generalizing rest with
  | text chars noBrace noComma =>
      rw [source, choices, expand_append noBrace.1, List.flatMap_singleton]
  | append first second ihFirst ihSecond =>
      rw [source, choices, List.append_assoc, ihFirst, ihSecond]
      simp [List.flatMap_assoc, List.map_flatMap, List.flatMap_map, List.map_map, Function.comp_def]
  | group first others ihFirst ihOthers =>
      have closes : Closes 0 (body first others) :=
        closes_body first.closes_source fun other _ => other.closes_source
      have found : firstGroup? ('{' :: (body first others ++ ['}']) ++ rest) =
          some ⟨[], body first others, rest⟩ :=
        firstGroup?_eq_some_iff.mpr ⟨by simp, List.not_mem_nil, closes⟩
      rw [source_group, expand_of_firstGroup?_eq_some found, alternatives_body, choices,
        List.flatMap_cons, List.flatMap_map, List.flatMap_append, List.flatMap_assoc]
      congr 1
      · exact ihFirst rest
      · apply List.flatMap_congr
        intro other member
        exact ihOthers other member rest

end GroupTree

/-- Expansion lists the choices that a tree of texts and groups leaves, one for each way to
choose. Of any pattern at all, it ends, it lists what it does not expand any further, and it
lists the pattern alone if the first brace opens no group. -/
theorem expand_lists_choices :
    (∀ tree : GroupTree false,
      expand tree.source = tree.choices ∧ tree.choices.length = tree.ways) ∧
    (WellFounded fun next pattern => GoesOnTo pattern next) ∧
    (∀ pattern, ∀ result ∈ expand pattern, expand result = [result]) ∧
    ∀ pattern, ¬OpensGroup pattern → expand pattern = [pattern] := by
  refine ⟨?_, wellFounded_goesOnTo, ?_, ?_⟩
  · intro tree
    have expanded := tree.expand_source_append []
    have nothing : expand [] = [[]] := expand_of_isLiteral (by simp [IsLiteral])
    rw [List.append_nil, nothing] at expanded
    constructor
    · simpa using expanded
    · exact tree.length_choices
  · intro pattern result listed
    exact expand_of_firstGroup?_eq_none (firstGroup?_eq_none_of_mem_expand listed)
  · intro pattern noGroup
    exact expand_of_firstGroup?_eq_none (firstGroup?_eq_none_iff.mpr noGroup)

/-- A group in a group, with an empty alternative, in front of another group; and a group
behind a brace that is not closed. -/
theorem expand_lists_choices_nested :
    (∃ tree : GroupTree false, String.ofList tree.source = "x,{a,{b,}}{c,d}" ∧ tree.ways = 6 ∧
      (expand tree.source).map String.ofList = ["x,ac", "x,ad", "x,bc", "x,bd", "x,c", "x,d"]) ∧
    ¬OpensGroup "\x7ba\x7bb,c\x7d".toList ∧
      expand "\x7ba\x7bb,c\x7d".toList = ["\x7ba\x7bb,c\x7d".toList] := by
  let inner : GroupTree true :=
    .group (.text ['b'] (by decide) (by decide)) [.text [] (by decide) (by decide)]
  let tree : GroupTree false :=
    .append (.text ['x', ','] (by decide) (by decide))
      (.append (.group (.text ['a'] (by decide) (by decide)) [inner])
        (.group (.text ['c'] (by decide) (by decide)) [.text ['d'] (by decide) (by decide)]))
  have unclosed : ¬OpensGroup "\x7ba\x7bb,c\x7d".toList := by decide +kernel
  obtain ⟨listed, -, -, alone⟩ := expand_lists_choices
  refine ⟨⟨tree, by decide +kernel, by decide +kernel, ?_⟩, unclosed, alone _ unclosed⟩
  rw [(listed tree).1]
  decide +kernel

end ScriptView.Glob
