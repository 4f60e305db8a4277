import ScriptView.Proofs.Component.Grammar.Tag

/-!
# Attributes of written tags

A name may be written twice in a tag, and what is read back has the first value of it,
also when the attributes are put in order. The tag's own `>` is the first character that
can end it: quoted values may hold others, and a text that is cut off in front of it,
wherever it is cut, has no tag at its start.
-/

namespace ScriptView.Component

open Text

/-! ## First occurrences -/

namespace Attributes

variable {attributes rest : Attributes} {first found : Attribute} {name : String}

/-- An attribute of a row whose name no earlier one has. -/
def IsFirst (attributes : Attributes) (found : Attribute) : Prop :=
  ∃ earlier later, attributes = earlier ++ found :: later ∧
    ∀ other ∈ earlier, other.name ≠ found.name

theorem not_isFirst_nil : ¬IsFirst [] found := by
  intro isFirst
  obtain ⟨earlier, later, split, -⟩ := isFirst
  exact List.append_ne_nil_of_right_ne_nil earlier (List.cons_ne_nil found later) split.symm

/-- What comes first in a row is its head or comes first behind it under another name. -/
theorem isFirst_cons_iff :
    IsFirst (first :: rest) found ↔ found = first ∨ found.name ≠ first.name ∧ IsFirst rest found := by
  constructor
  · intro isFirst
    obtain ⟨earlier, later, split, apart⟩ := isFirst
    cases earlier with
    | nil => exact .inl (List.cons.inj split).1.symm
    | cons other earlier =>
        obtain ⟨same, splitRest⟩ := List.cons.inj split
        rw [List.forall_mem_cons] at apart
        rw [same]
        exact .inr ⟨apart.1.symm, earlier, later, splitRest, apart.2⟩
  · intro isFirst
    cases isFirst with
    | inl here =>
        rw [here]
        exact ⟨[], rest, rfl, by simp⟩
    | inr later =>
        obtain ⟨differs, earlier, behind, split, apart⟩ := later
        refine ⟨first :: earlier, behind, by rw [split, List.cons_append], ?_⟩
        rw [List.forall_mem_cons]
        exact ⟨differs.symm, apart⟩

/-- The value of a name is the one that it has where it comes first. -/
theorem get?_eq_some_iff {value : AttributeValue} :
    attributes.get? name = some value ↔ attributes.IsFirst ⟨name, value⟩ := by
  constructor
  · intro isValue
    obtain ⟨⟨foundName, foundValue⟩, isFound, same⟩ := Option.map_eq_some_iff.mp isValue
    obtain ⟨named, earlier, later, split, apart⟩ := List.find?_eq_some_iff_append.mp isFound
    have sameName : foundName = name := beq_iff_eq.mp named
    have sameValue : foundValue = value := same
    rw [sameName, sameValue] at split
    exact ⟨earlier, later, split, by simpa using apart⟩
  · intro isFirst
    obtain ⟨earlier, later, split, apart⟩ := isFirst
    have isFound : attributes.find? (·.name == name) = some ⟨name, value⟩ := by
      apply List.find?_eq_some_iff_append.mpr
      exact ⟨beq_self_eq_true name, earlier, later, split, by simpa using apart⟩
    rw [get?, isFound]
    rfl

/-- The attributes without repetitions are those that come first. -/
theorem mem_distinct_iff : found ∈ attributes.distinct ↔ attributes.IsFirst found := by
  induction attributes with
  | nil => simp [distinct, not_isFirst_nil]
  | cons first rest ih =>
      rw [isFirst_cons_iff, distinct, List.mem_cons, List.mem_filter, ih, bne_iff_ne, and_comm]

/-- No name is left twice. -/
theorem pairwise_distinct (attributes : Attributes) :
    attributes.distinct.Pairwise fun left right => left.name ≠ right.name := by
  induction attributes with
  | nil => exact .nil
  | cons first rest ih =>
      rw [distinct, List.pairwise_cons]
      refine ⟨?_, ih.filter _⟩
      intro other member
      exact (bne_iff_ne.mp (List.mem_filter.mp member).2).symm

theorem mem_sorted_iff : found ∈ attributes.sorted ↔ attributes.IsFirst found := by
  rw [sorted, List.mem_mergeSort, mem_distinct_iff]

/-- The names come in ascending order, each one once. -/
theorem pairwise_sorted (attributes : Attributes) :
    attributes.sorted.Pairwise fun left right => left.name < right.name := by
  have ascending : attributes.sorted.Pairwise fun left right =>
      decide (left.name ≤ right.name) = true := by
    apply List.pairwise_mergeSort
    · intro left middle right
      simpa using String.le_trans
    · intro left right
      simpa using String.le_total left.name right.name
  have apart : attributes.sorted.Pairwise fun left right => left.name ≠ right.name :=
    (pairwise_distinct attributes).perm (List.mergeSort_perm _ _).symm Ne.symm
  apply ascending.imp₂ _ apart
  intro left right less differs
  exact Std.lt_of_le_of_ne (of_decide_eq_true less) differs

end Attributes

/-! ## Tags that are cut off -/

/-- What is read in front of a text is read there, too, when the text goes on. -/
theorem OpeningTag.scan?_append {tag : OpeningTag} {text rest : List Char}
    (scanned : scan? text = some (tag, rest)) (more : List Char) :
    scan? (text ++ more) = some (tag, rest ++ more) := by
  obtain ⟨front, rfl⟩ := (scan?_suffix scanned).1
  rw [List.append_assoc]
  exact scan?_local (rest ++ more) scanned

/-- No tag ends in front of the last character of a written tag. -/
theorem WrittenTag.scan?_cut (tag : WrittenTag) {cut more : List Char} {c : Char}
    (whole : tag.source = cut ++ c :: more) : OpeningTag.scan? cut = none := by
  cases scanned : OpeningTag.scan? cut with
  | none => rfl
  | some read =>
      have goesOn := OpeningTag.scan?_append scanned (c :: more)
      have nothingLeft := tag.scan?_source []
      rw [← whole] at goesOn
      rw [List.append_nil, goesOn, Option.some.injEq, Prod.mk.injEq] at nothingLeft
      exact absurd nothingLeft.2 (List.append_ne_nil_of_right_ne_nil _ (List.cons_ne_nil c more))

/-- A tag is read back up to its end, whatever follows it. It is self-closing if it is
written so, and each name that is written in it has the value of its first attribute of
this name; put in order, these attributes are all that there are. A tag that is cut off in
front of its end is not read. -/
theorem scan?_written (tag : WrittenTag) :
    (∀ rest, ∃ read : OpeningTag, OpeningTag.scan? (tag.source ++ rest) = some (read, rest) ∧
        read.selfClosing = tag.selfClosing ∧
        (∀ name value, read.attributes.get? name = some value ↔
          Attributes.IsFirst (tag.attributes.map WrittenAttribute.meaning) ⟨name, value⟩) ∧
        (∀ found, found ∈ read.attributes.sorted ↔
          Attributes.IsFirst (tag.attributes.map WrittenAttribute.meaning) found) ∧
        read.attributes.sorted.Pairwise fun left right => left.name < right.name) ∧
      ∀ cut c more, tag.source = cut ++ c :: more → OpeningTag.scan? cut = none := by
  constructor
  · intro rest
    refine ⟨tag.meaning, tag.scan?_source rest, rfl, ?_, ?_, ?_⟩
    · intro name value
      exact Attributes.get?_eq_some_iff
    · intro found
      exact Attributes.mem_sorted_iff
    · exact Attributes.pairwise_sorted _
  · intro cut c more whole
    exact tag.scan?_cut whole

/-- A name that is written twice, with a `>` in its first value, a flag and a value with a
slash in it. -/
theorem scan?_written_repeated :
    ∃ tag : WrittenTag,
      tag.source = " a =\n\"x>\" b a='y' c=d/e />".toList ∧
      (∃ read, OpeningTag.scan? (tag.source ++ ['>']) = some (read, ['>']) ∧
        read.selfClosing = true ∧ read.attributes.get? "a" = some (.text "x>") ∧
        read.attributes.get? "b" = some .flag ∧ read.attributes.get? "c" = some (.text "d/e")) ∧
      OpeningTag.scan? " a =\n\"x>".toList = none := by
  let noGap : Blanks := ⟨[], by simp⟩
  let space : Blanks := ⟨[' '], by simp [isMarkupBlank]⟩
  let lineFeed : Blanks := ⟨['\n'], by simp [isMarkupBlank]⟩
  let first : WrittenAttribute :=
    { gap := space, parted := by simp [space], name := ['a'], named := by simp
      plain := by simp [isMarkupBlank]
      assignment? := some ⟨space, lineFeed, .quoted '"' ['x', '>'] (.inl rfl) (by simp)⟩ }
  let flag : WrittenAttribute :=
    { gap := space, parted := by simp [space], name := ['b'], named := by simp
      plain := by simp [isMarkupBlank]
      assignment? := none }
  let again : WrittenAttribute :=
    { first with assignment? := some ⟨noGap, noGap, .quoted '\'' ['y'] (.inr rfl) (by simp)⟩ }
  let bare : WrittenAttribute :=
    { gap := space, parted := by simp [space], name := ['c'], named := by simp
      plain := by simp [isMarkupBlank]
      assignment? := some ⟨noGap, noGap, .bare 'd' ['/', 'e'] (by simp [isMarkupBlank]) (by simp)⟩ }
  obtain ⟨reads, cutOff⟩ :=
    scan?_written ⟨[first, flag, again, bare], space, true, by simp [space]⟩
  obtain ⟨read, scanned, selfClosing, values, -, -⟩ := reads ['>']
  refine ⟨_, rfl, ⟨read, scanned, selfClosing, ?_, ?_, ?_⟩, ?_⟩
  · exact (values "a" _).mpr ⟨[], _, rfl, by simp⟩
  · exact (values "b" _).mpr ⟨[_], _, rfl, by decide +kernel⟩
  · exact (values "c" _).mpr ⟨[_, _, _], _, rfl, by decide +kernel⟩
  · exact cutOff _ '"' " b a='y' c=d/e />".toList rfl

end ScriptView.Component
