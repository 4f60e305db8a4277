import ScriptView.Proofs.Component.Locality.Tag

/-!
# Opening tags as they are written

The grammar of opening tags from behind the name: attributes, each behind a
blank, and the end of the tag. Every part carries what makes it well formed. A
tag that is written in this way is read back as written, whatever follows it
(`scan?_source`).
-/

namespace ScriptView.Component

open Text

/-! ## Runs of characters -/

section Runs

variable {p : Char → Bool} {word text : List Char}

theorem takeWhile_append_of_head? (run : ∀ c ∈ word, p c = true)
    (stops : ∀ c ∈ text.head?, p c = false) : (word ++ text).takeWhile p = word := by
  rw [List.takeWhile_append_of_pos run]
  cases text with
  | nil => simp
  | cons c text => simp [stops c rfl]

theorem dropWhile_append_of_head? (run : ∀ c ∈ word, p c = true)
    (stops : ∀ c ∈ text.head?, p c = false) : (word ++ text).dropWhile p = text := by
  rw [List.dropWhile_append_of_pos run]
  cases text with
  | nil => simp
  | cons c text => simp [stops c rfl]

theorem endsName_eq_true :
    endsName text = true ↔ ∀ c ∈ text.head?, c = '>' ∨ c = '/' ∨ isMarkupBlank c = true := by
  cases text with
  | nil => simp [endsName]
  | cons c text => simp [endsName, or_assoc]

theorem isAttributeNameChar_of_isMarkupBlank {c : Char} (blank : isMarkupBlank c = true) :
    isAttributeNameChar c = false := by
  simp [isAttributeNameChar, blank]

/-- Where an element's name may end, an attribute's name ends, too. -/
theorem isAttributeNameChar_of_endsName (ends : endsName text = true) :
    ∀ c ∈ text.head?, isAttributeNameChar c = false := by
  intro c first
  rcases endsName_eq_true.mp ends c first with rfl | rfl | blank
  · rfl
  · rfl
  · exact isAttributeNameChar_of_isMarkupBlank blank

end Runs

/-! ## The grammar -/

/-- A text of blanks. -/
structure Blanks where
  text : List Char
  blank : ∀ c ∈ text, isMarkupBlank c = true

/-- A text behind blanks starts with one of them, unless there are none. -/
theorem Blanks.head?_append (gap : Blanks) {text : List Char} {c : Char}
    (first : c ∈ (gap.text ++ text).head?) :
    isMarkupBlank c = true ∨ gap.text = [] ∧ c ∈ text.head? := by
  rcases gap with ⟨blanks, blank⟩
  cases blanks with
  | nil => exact .inr ⟨rfl, first⟩
  | cons d blanks =>
      cases first
      exact .inl (blank c List.mem_cons_self)

/-- An attribute's value: between two quotes or, without any, up to a blank or
the end of the tag. -/
inductive WrittenValue where
  | quoted (quote : Char) (text : List Char) (isQuote : quote = '"' ∨ quote = '\'')
      (free : quote ∉ text)
  | bare (first : Char) (text : List Char)
      (plain : ∀ c ∈ first :: text, isMarkupBlank c = false ∧ c ≠ '>')
      (unquoted : first ≠ '"' ∧ first ≠ '\'')

namespace WrittenValue

/-- The text of a value with its quotes. -/
def source : WrittenValue → List Char
  | .quoted quote text _ _ => quote :: text ++ [quote]
  | .bare first text _ _ => first :: text

/-- The text that a value stands for. -/
def meaning : WrittenValue → List Char
  | .quoted _ text _ _ => text
  | .bare first text _ _ => first :: text

/-- Whether a value is written without quotes. -/
def isBare : WrittenValue → Bool
  | .quoted .. => false
  | .bare .. => true

end WrittenValue

/-- An equals sign among blanks, and a value. -/
structure Assignment where
  before : Blanks
  behind : Blanks
  value : WrittenValue

/-- The text of an assignment. -/
def Assignment.source (assignment : Assignment) : List Char :=
  assignment.before.text ++ '=' :: (assignment.behind.text ++ assignment.value.source)

/-- An attribute behind at least one blank: a name alone or with a value. -/
structure WrittenAttribute where
  gap : Blanks
  parted : gap.text ≠ []
  name : List Char
  named : name ≠ []
  plain : ∀ c ∈ name, isMarkupBlank c = false ∧ c ≠ '=' ∧ c ≠ '>' ∧ c ≠ '/'
  assignment? : Option Assignment

namespace WrittenAttribute

/-- The text of an attribute behind its gap. -/
def text (written : WrittenAttribute) : List Char :=
  written.name ++ (written.assignment?.map Assignment.source).getD []

/-- The text of an attribute. -/
def source (written : WrittenAttribute) : List Char :=
  written.gap.text ++ written.text

theorem nameChars (written : WrittenAttribute) :
    ∀ c ∈ written.name, isAttributeNameChar c = true := by
  intro c member
  rcases written.plain c member with ⟨notBlank, notEquals, notClose, notSlash⟩
  simp [isAttributeNameChar, notBlank, notEquals, notClose, notSlash]

/-- What an attribute says. -/
def meaning (written : WrittenAttribute) : Attribute where
  name := String.ofList written.name
  value := match written.assignment? with
    | none => .flag
    | some assignment => .text (String.ofList assignment.value.meaning)

/-- Whether an attribute ends with a value without quotes. -/
def isBare (written : WrittenAttribute) : Bool :=
  written.assignment?.any (·.value.isBare)

end WrittenAttribute

/-- An opening tag from behind its name. A slash right behind a value without
quotes would belong to the value. -/
structure WrittenTag where
  attributes : List WrittenAttribute
  gap : Blanks
  selfClosing : Bool
  parted : selfClosing = true → ∀ last ∈ attributes.getLast?, last.isBare = true → gap.text ≠ []

namespace WrittenTag

/-- What a tag says. -/
def meaning (tag : WrittenTag) : OpeningTag where
  attributes := tag.attributes.map WrittenAttribute.meaning
  selfClosing := tag.selfClosing

/-- The text of a tag from behind its name. -/
def source (tag : WrittenTag) : List Char :=
  tag.attributes.flatMap WrittenAttribute.source ++ (tag.gap.text ++ tag.meaning.close)

end WrittenTag

/-! ## Reading what is written -/

/-- A value is read up to its end: a value without quotes up to the first
character that is none of its own. -/
theorem value?_source {value : WrittenValue} {text : List Char}
    (stops : value.isBare = true → ∀ c ∈ text.head?, isBareValueChar c = false) :
    value? (value.source ++ text) = some (String.ofList value.meaning, text) := by
  cases value with
  | quoted quote content isQuote free =>
      have run := forall_bne_of_not_mem free
      have ends : ∀ c ∈ (quote :: text).head?, (c != quote) = false := by simp
      have read : quotedValue? quote (content ++ quote :: text) =
          some (String.ofList content, text) := by
        rw [quotedValue?, takeWhile_append_of_head? run ends, dropWhile_append_of_head? run ends]
      rcases isQuote with rfl | rfl
      · simpa [WrittenValue.source, WrittenValue.meaning, value?_cons] using read
      · simpa [WrittenValue.source, WrittenValue.meaning, value?_cons] using read
  | bare first content plain unquoted =>
      have run : ∀ c ∈ first :: content, isBareValueChar c = true := by
        intro c member
        simp [isBareValueChar, plain c member]
      rw [WrittenValue.source, List.cons_append, value?_cons, if_neg unquoted.1,
        if_neg unquoted.2, ← List.cons_append, takeWhile_append_of_head? run (stops rfl),
        dropWhile_append_of_head? run (stops rfl)]
      rfl

/-- A value starts with no blank. -/
theorem WrittenValue.head?_source (value : WrittenValue) (text : List Char) :
    ∀ c ∈ (value.source ++ text).head?, isMarkupBlank c = false := by
  intro c first
  cases value with
  | quoted quote content isQuote _ =>
      cases first
      rcases isQuote with rfl | rfl <;> rfl
  | bare first content plain _ =>
      cases first
      exact (plain c List.mem_cons_self).1

/-- What may follow an attribute: a character that ends a name, but neither an
equals sign behind blanks nor, behind a value without quotes, a slash. -/
structure WrittenAttribute.FollowedBy (written : WrittenAttribute) (text : List Char) : Prop where
  ends : endsName text = true
  notAssigned : (text.dropWhile isMarkupBlank).head? ≠ some '='
  notValue : written.isBare = true → text.head? ≠ some '/'

section Names

variable (written : WrittenAttribute) {text : List Char}
  (stops : ∀ c ∈ text.head?, isAttributeNameChar c = false)

include stops

/-- A name without an equals sign behind it is a flag. -/
theorem readAttribute?_flag (notAssigned : (text.dropWhile isMarkupBlank).head? ≠ some '=') :
    readAttribute? (written.name ++ text) =
      some (⟨String.ofList written.name, .flag⟩, text) := by
  rw [readAttribute?, takeWhile_append_of_head? written.nameChars stops,
    dropWhile_append_of_head? written.nameChars stops]
  split
  · next behind eq =>
    rw [eq] at notAssigned
    contradiction
  · rfl

/-- A value is read behind a name with an equals sign. -/
theorem readAttribute?_assigned {behind rest : List Char} {value : String}
    (assigned : text.dropWhile isMarkupBlank = '=' :: behind)
    (read : value? (behind.dropWhile isMarkupBlank) = some (value, rest)) :
    readAttribute? (written.name ++ text) =
      some (⟨String.ofList written.name, .text value⟩, rest) := by
  rw [readAttribute?, takeWhile_append_of_head? written.nameChars stops,
    dropWhile_append_of_head? written.nameChars stops]
  simp only [assigned, read]
  rfl

end Names

namespace Assignment

variable (assignment : Assignment) (text : List Char)

/-- A name ends where a value is assigned to it. -/
theorem head?_source :
    ∀ c ∈ (assignment.source ++ text).head?, isAttributeNameChar c = false := by
  intro c first
  rw [source, List.append_assoc] at first
  rcases assignment.before.head?_append first with blank | ⟨_, equals⟩
  · exact isAttributeNameChar_of_isMarkupBlank blank
  · cases equals
    rfl

theorem dropWhile_source : (assignment.source ++ text).dropWhile isMarkupBlank =
    '=' :: (assignment.behind.text ++ (assignment.value.source ++ text)) := by
  have stops : ∀ c ∈ ('=' :: (assignment.behind.text ++
      (assignment.value.source ++ text))).head?, isMarkupBlank c = false := by
    intro c first
    cases first
    rfl
  rw [source, List.append_assoc, List.cons_append, List.append_assoc]
  exact dropWhile_append_of_head? assignment.before.blank stops

end Assignment

theorem readAttribute?_text {written : WrittenAttribute} {text : List Char}
    (follows : written.FollowedBy text) :
    readAttribute? (written.text ++ text) = some (written.meaning, text) := by
  cases assigned : written.assignment? with
  | none =>
      have stops := isAttributeNameChar_of_endsName follows.ends
      simp only [WrittenAttribute.text, WrittenAttribute.meaning, assigned, Option.map_none,
        Option.getD_none, List.append_nil]
      exact readAttribute?_flag written stops follows.notAssigned
  | some assignment =>
      have read : value? (assignment.value.source ++ text) =
          some (String.ofList assignment.value.meaning, text) := by
        apply value?_source
        intro isBare c first
        rcases endsName_eq_true.mp follows.ends c first with rfl | rfl | blank
        · rfl
        · refine absurd first (follows.notValue ?_)
          rw [WrittenAttribute.isBare, assigned]
          exact isBare
        · simp [isBareValueChar, blank]
      simp only [WrittenAttribute.text, WrittenAttribute.meaning, assigned, Option.map_some,
        Option.getD_some, List.append_assoc]
      apply readAttribute?_assigned written (assignment.head?_source text)
        (assignment.dropWhile_source text)
      rw [dropWhile_append_of_head? assignment.behind.blank (assignment.value.head?_source text)]
      exact read

/-- Blanks in a tag are passed. -/
theorem scan?_blanks (gap : Blanks) (text : List Char) :
    OpeningTag.scan? (gap.text ++ text) = OpeningTag.scan? text := by
  rcases gap with ⟨blanks, blank⟩
  induction blanks with
  | nil => rfl
  | cons c blanks ih =>
      have isBlank := blank c List.mem_cons_self
      rw [List.cons_append, OpeningTag.scan?_of_separator]
      · exact ih fun d member => blank d (List.mem_cons_of_mem c member)
      · rintro rfl
        contradiction
      · rintro rfl
        contradiction
      · exact isAttributeNameChar_of_isMarkupBlank isBlank

theorem scan?_attribute {written : WrittenAttribute} {text : List Char}
    (follows : written.FollowedBy text) :
    OpeningTag.scan? (written.source ++ text) = (OpeningTag.scan? text).map
      fun (tag, behind) => (tag.withAttribute written.meaning, behind) := by
  have read := readAttribute?_text follows
  rw [WrittenAttribute.source, List.append_assoc, scan?_blanks]
  cases name : written.name with
  | nil => exact absurd name written.named
  | cons c rest =>
      have nameChar := written.nameChars c (name ▸ List.mem_cons_self)
      simp only [WrittenAttribute.text, name, List.cons_append] at read ⊢
      exact OpeningTag.scan?_of_nameChar nameChar read

/-- One attribute may follow another. -/
theorem WrittenAttribute.followedBy_source (written next : WrittenAttribute) (text : List Char) :
    written.FollowedBy (next.source ++ text) := by
  have first : ∀ c ∈ (next.source ++ text).head?, isMarkupBlank c = true := by
    intro c first
    rw [source, List.append_assoc] at first
    rcases next.gap.head?_append first with blank | ⟨nothing, _⟩
    · exact blank
    · exact absurd nothing next.parted
  have behind : ∀ c ∈ (next.text ++ text).head?, isMarkupBlank c = false ∧ c ≠ '=' := by
    intro c first
    cases name : next.name with
    | nil => exact absurd name next.named
    | cons letter rest =>
        rw [WrittenAttribute.text, name] at first
        cases first
        have plain := next.plain c (name ▸ List.mem_cons_self)
        exact ⟨plain.1, plain.2.1⟩
  constructor
  · apply endsName_eq_true.mpr
    intro c isFirst
    exact .inr (.inr (first c isFirst))
  · have stops : ∀ c ∈ (next.text ++ text).head?, isMarkupBlank c = false :=
      fun c isFirst => (behind c isFirst).1
    rw [source, List.append_assoc, dropWhile_append_of_head? next.gap.blank stops]
    intro assigned
    exact (behind '=' assigned).2 rfl
  · intro _ slash
    have := first '/' slash
    contradiction

/-- Attributes are read one after the other, up to the end of the tag. -/
theorem scan?_attributes {attributes : List WrittenAttribute} {ending rest : List Char}
    {closes : Bool} (scanned : OpeningTag.scan? ending = some (⟨[], closes⟩, rest))
    (follows : ∀ last ∈ attributes.getLast?, last.FollowedBy ending) :
    OpeningTag.scan? (attributes.flatMap WrittenAttribute.source ++ ending) =
      some (⟨attributes.map WrittenAttribute.meaning, closes⟩, rest) := by
  induction attributes with
  | nil => exact scanned
  | cons written attributes ih =>
      have followsHere : written.FollowedBy
          (attributes.flatMap WrittenAttribute.source ++ ending) := by
        cases attributes with
        | nil => exact follows written rfl
        | cons next others =>
            rw [List.flatMap_cons, List.append_assoc]
            exact written.followedBy_source next _
      have others : ∀ last ∈ attributes.getLast?, last.FollowedBy ending := by
        intro last isLast
        apply follows last
        rw [List.getLast?_cons, Option.mem_def.mp isLast]
        rfl
      rw [List.flatMap_cons, List.append_assoc, scan?_attribute followsHere, ih others]
      rfl

namespace WrittenTag

variable (tag : WrittenTag) (rest : List Char)

theorem head?_close {c : Char} (first : c ∈ (tag.meaning.close ++ rest).head?) :
    c = '>' ∨ c = '/' ∧ tag.selfClosing = true := by
  cases closes : tag.selfClosing with
  | false =>
      rw [OpeningTag.close, meaning, closes] at first
      cases first
      exact .inl rfl
  | true =>
      rw [OpeningTag.close, meaning, closes] at first
      cases first
      exact .inr ⟨rfl, rfl⟩

theorem endsName_close : endsName (tag.gap.text ++ (tag.meaning.close ++ rest)) = true := by
  apply endsName_eq_true.mpr
  intro c first
  rcases tag.gap.head?_append first with blank | ⟨_, closes⟩
  · exact .inr (.inr blank)
  · rcases tag.head?_close rest closes with close | slash
    · exact .inl close
    · exact .inr (.inl slash.1)

/-- The end of a tag may follow its last attribute. -/
theorem followedBy_close {last : WrittenAttribute} (isLast : last ∈ tag.attributes.getLast?) :
    last.FollowedBy (tag.gap.text ++ (tag.meaning.close ++ rest)) := by
  constructor
  · exact tag.endsName_close rest
  · have stops : ∀ c ∈ (tag.meaning.close ++ rest).head?, isMarkupBlank c = false := by
      intro c first
      rcases tag.head?_close rest first with rfl | ⟨rfl, _⟩
      · rfl
      · rfl
    rw [dropWhile_append_of_head? tag.gap.blank stops]
    intro assigned
    rcases tag.head?_close rest assigned with same | ⟨same, _⟩
    · contradiction
    · contradiction
  · intro isBare slash
    rcases tag.gap.head?_append slash with blank | ⟨nothing, closes⟩
    · contradiction
    · rcases tag.head?_close rest closes with same | ⟨_, selfClosing⟩
      · contradiction
      · exact tag.parted selfClosing last isLast isBare nothing

/-- A tag is read back as it is written. -/
theorem scan?_source : OpeningTag.scan? (tag.source ++ rest) = some (tag.meaning, rest) := by
  rw [source, List.append_assoc, List.append_assoc]
  apply scan?_attributes
  · rw [scan?_blanks]
    exact OpeningTag.scan?_close tag.selfClosing rest
  · intro last isLast
    exact tag.followedBy_close rest isLast

/-- The name of an element ends where its tag goes on. -/
theorem endsName_source : endsName (tag.source ++ rest) = true := by
  rw [source, List.append_assoc, List.append_assoc]
  cases tag.attributes with
  | nil => exact tag.endsName_close rest
  | cons first others =>
      rw [List.flatMap_cons, List.append_assoc]
      exact (first.followedBy_source first _).ends

end WrittenTag

end ScriptView.Component
