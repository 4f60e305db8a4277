import ScriptView.Proofs.Component.Element
import ScriptView.Proofs.Component.Grammar.Tag

/-!
# Bodies as they are written

The grammar of what stands between an opening tag and its end tag. The body of a
template is balanced: the templates in it are closed and the comments in it end.
Any other body is raw text that does not hold the end tag. In both cases the end
tag that is found is the one that is written behind the body
(`bodyEnd?_of_enclosed`), however much the body looks like other markup.
-/

namespace ScriptView.Component

open Text

/-! ## Names, comments and end tags -/

/-- The name of an element: a letter, and letters, digits and four other
characters. -/
structure TagName where
  first : Char
  rest : List Char
  letter : first.isAlpha = true
  plain : ∀ c ∈ rest, c.isAlphanum = true ∨ c ∈ ['-', '_', ':', '.']

namespace TagName

/-- The text of a name. -/
def text (name : TagName) : List Char :=
  name.first :: name.rest

theorem isNameChar_of_mem (name : TagName) : ∀ c ∈ name.text, isNameChar c = true := by
  intro c member
  rcases List.mem_cons.mp member with rfl | inRest
  · simp [isNameChar, Char.isAlphanum, name.letter]
  · rcases name.plain c inRest with letter | other
    · simp [isNameChar, letter]
    · simp only [List.mem_cons, List.not_mem_nil, or_false] at other
      rcases other with rfl | rfl | rfl | rfl <;> rfl

/-- A name does not hold what no name may hold. -/
theorem not_mem (name : TagName) {c : Char} (stops : isNameChar c = false) : c ∉ name.text := by
  intro member
  rw [name.isNameChar_of_mem c member] at stops
  contradiction

/-- A name is read up to where it ends. -/
theorem nameAt_append (name : TagName) {text : List Char} (ends : endsName text = true) :
    nameAt (name.text ++ text) = name.text := by
  have stops : ∀ c ∈ text.head?, isNameChar c = false := by
    intro c first
    rcases endsName_eq_true.mp ends c first with rfl | rfl | blank
    · rfl
    · rfl
    · simp only [isMarkupBlank, Bool.or_eq_true, beq_iff_eq] at blank
      rcases blank with (((rfl | rfl) | rfl) | rfl) | rfl <;> rfl
  have run := takeWhile_append_of_head? name.isNameChar_of_mem stops
  rw [TagName.text, List.cons_append] at run ⊢
  rw [nameAt, if_pos name.letter, run]

end TagName

/-- A character is found behind any text that does not hold it. -/
theorem after?_of_not_mem {c : Char} {front : List Char} (free : c ∉ front) (rest : List Char) :
    after? [c] (front ++ c :: rest) = some rest := by
  induction front with
  | nil => simp [after?]
  | cons d front ih =>
      have differs : c ≠ d := fun same => free (same ▸ List.mem_cons_self)
      rw [List.cons_append, after?, if_neg (by simpa using differs)]
      exact ih (List.not_mem_of_not_mem_cons free)

/-- A word with which a text ends, and which the text does not hold before, is
found there, whatever follows. -/
theorem after?_of_isSuffix {word text : List Char} (nonempty : word ≠ []) (closes : word <:+ text)
    (once : ∀ front back, text = front ++ word ++ back → back = []) (rest : List Char) :
    after? word (text ++ rest) = some rest := by
  induction text with
  | nil => exact absurd (List.suffix_nil.mp closes) nonempty
  | cons c text ih =>
      rw [List.cons_append, after?, ← List.cons_append]
      split
      · next starts =>
        have fits : word <+: c :: text := List.prefix_of_prefix_length_le
          (List.isPrefixOf_iff_prefix.mp starts) (List.prefix_append _ rest) closes.length_le
        rcases fits with ⟨back, whole⟩
        have nothing := once [] back whole.symm
        rw [nothing, List.append_nil] at whole
        rw [whole, List.drop_left' rfl]
      · next differs =>
        rcases List.suffix_cons_iff.mp closes with whole | inTail
        · rw [← whole] at differs
          exact absurd (List.isPrefixOf_iff_prefix.mpr (List.prefix_append word rest)) differs
        · apply ih inTail
          intro front back split
          exact once (c :: front) back (by rw [split]; rfl)

/-- A word is found in front of all that follows one of its places. -/
theorem length_le_of_after? {word front back rest : List Char}
    (found : after? word (front ++ word ++ back) = some rest) : back.length ≤ rest.length := by
  induction front with
  | nil =>
      cases whole : word ++ back with
      | nil => simp [(List.append_eq_nil_iff.mp whole).2]
      | cons c text =>
          rw [List.nil_append, whole, after?, ← whole,
            if_pos (List.isPrefixOf_iff_prefix.mpr (List.prefix_append _ _)),
            List.drop_left' rfl, Option.some.injEq] at found
          rw [found]
  | cons c front ih =>
      rw [List.cons_append, List.cons_append, after?] at found
      split at found
      · cases found
        simp only [List.length_drop, List.length_cons, List.length_append]
        omega
      · exact ih found

/-- A comment, which ends with the first `-->` in it. -/
structure IsComment (text : List Char) : Prop where
  opens : ['<', '!', '-', '-'] <+: text
  closes : ['-', '-', '>'] <:+ text
  once : ∀ front back, text = front ++ ['-', '-', '>'] ++ back → back = []

namespace IsComment

variable {text : List Char}

theorem startsComment (comment : IsComment text) (rest : List Char) :
    ['<', '!', '-', '-'].isPrefixOf (text ++ rest) = true :=
  List.isPrefixOf_iff_prefix.mpr (comment.opens.trans (List.prefix_append text rest))

theorem after?_append (comment : IsComment text) (rest : List Char) :
    after? ['-', '-', '>'] (text ++ rest) = some rest :=
  after?_of_isSuffix (by simp) comment.closes comment.once rest

end IsComment

theorem isComment_iff {text : List Char} : IsComment text ↔
    ['<', '!', '-', '-'] <+: text ∧ after? ['-', '-', '>'] text = some [] := by
  constructor
  · intro comment
    have found := comment.after?_append []
    rw [List.append_nil] at found
    exact ⟨comment.opens, found⟩
  · intro found
    rcases found with ⟨opens, found⟩
    refine ⟨opens, ?_, ?_⟩
    · rcases after?_eq_some found with ⟨front, split⟩
      rw [split, List.append_nil]
      exact List.suffix_append _ _
    · intro front back split
      rw [split] at found
      exact List.eq_nil_of_length_eq_zero (Nat.le_zero.mp (length_le_of_after? found))

instance (text : List Char) : Decidable (IsComment text) :=
  decidable_of_iff _ isComment_iff.symm

/-- The end tag of a name, with blanks behind the name. -/
def endTag (name : List Char) (gap : Blanks) : List Char :=
  '<' :: '/' :: name ++ (gap.text ++ ['>'])

section EndTags

variable {name : List Char} (gap : Blanks) (rest : List Char)

theorem startsEndTag_endTag : startsEndTag name (endTag name gap ++ rest) = true := by
  have ends : endsName (gap.text ++ ['>'] ++ rest) = true := by
    apply endsName_eq_true.mpr
    intro c first
    rw [List.append_assoc] at first
    rcases gap.head?_append first with blank | ⟨_, close⟩
    · exact .inr (.inr blank)
    · cases close
      exact .inl rfl
  have behind : (endTag name gap ++ rest).drop (name.length + 2) = gap.text ++ ['>'] ++ rest := by
    rw [endTag, List.append_assoc]
    exact List.drop_left' rfl
  rw [startsEndTag, behind, ends, Bool.and_true, List.isPrefixOf_iff_prefix, endTag,
    List.append_assoc]
  exact List.prefix_append _ _

theorem after?_endTag (free : '>' ∉ name) :
    after? ['>'] (endTag name gap ++ rest) = some rest := by
  have none : '>' ∉ '<' :: '/' :: name ++ gap.text := by
    intro member
    rcases List.mem_append.mp member with inName | blank
    · simp [free] at inName
    · have := gap.blank '>' blank
      contradiction
  have found := after?_of_not_mem none rest
  rw [endTag]
  simpa using found

end EndTags

/-! ## Balanced texts -/

/-- A text starts with a word that is a whole name or ends with one. -/
def StartsName (word text : List Char) : Prop :=
  ∃ c rest, text = word ++ c :: rest ∧ endsName (c :: rest) = true

theorem startsName_iff {word text : List Char} : StartsName word text ↔
    word.isPrefixOf text = true ∧ word.length < text.length ∧
      endsName (text.drop word.length) = true := by
  constructor
  · intro starts
    rcases starts with ⟨c, rest, rfl, ends⟩
    rw [List.drop_left' rfl]
    exact ⟨List.isPrefixOf_iff_prefix.mpr (List.prefix_append _ _), by simp, ends⟩
  · intro starts
    rcases starts with ⟨starts, longer, ends⟩
    rcases List.isPrefixOf_iff_prefix.mp starts with ⟨behind, rfl⟩
    cases behind with
    | nil => simp at longer
    | cons c rest =>
        rw [List.drop_left' rfl] at ends
        exact ⟨c, rest, rfl, ends⟩

instance (word text : List Char) : Decidable (StartsName word text) :=
  decidable_of_iff _ startsName_iff.symm

/-- The bodies of templates: what looks like the tag of a template is one, and
the templates in the body are closed. -/
inductive Balanced : List Char → Prop where
  | nil : Balanced []
  | plain {c : Char} {rest : List Char} (differs : c ≠ '<') (behind : Balanced rest) :
      Balanced (c :: rest)
  | comment {text rest : List Char} (comment : IsComment text) (behind : Balanced rest) :
      Balanced (text ++ rest)
  | markup {rest : List Char} (notComment : ¬['!', '-', '-'] <+: rest)
      (notEnd : ¬StartsName ('/' :: templateName) rest)
      (notOpening : ¬StartsName templateName rest) (behind : Balanced rest) :
      Balanced ('<' :: rest)
  | selfClosing {tag : WrittenTag} {rest : List Char} (closed : tag.selfClosing = true)
      (behind : Balanced rest) : Balanced ('<' :: templateName ++ (tag.source ++ rest))
  | nested {tag : WrittenTag} {inner rest : List Char} (opened : tag.selfClosing = false)
      (inside : Balanced inner) (gap : Blanks) (behind : Balanced rest) :
      Balanced ('<' :: templateName ++ (tag.source ++ (inner ++ (endTag templateName gap ++ rest))))

section Starts

variable {word text rest : List Char}

/-- A word without `<` does not reach into a tail that starts with `<`. -/
theorem isPrefix_of_append_less (free : '<' ∉ word)
    (starts : word.isPrefixOf (text ++ '<' :: rest) = true) : word <+: text := by
  have member : '<' ∈ text ++ ['<'] := by simp
  rw [List.append_cons, isPrefixOf_append_of_mem member free, List.isPrefixOf_iff_prefix,
    List.prefix_concat_iff] at starts
  rcases starts with whole | inside
  · rw [whole] at free
    exact absurd member free
  · exact inside

/-- So does a name that ends in front of the tail. -/
theorem startsName_of_append_less (free : '<' ∉ word)
    (starts : word.isPrefixOf (text ++ '<' :: rest) = true)
    (ends : endsName ((text ++ '<' :: rest).drop word.length) = true) : StartsName word text := by
  have shorter := length_lt_of_startsName free starts ends
  rcases isPrefix_of_append_less free starts with ⟨behind, rfl⟩
  cases behind with
  | nil => simp at shorter
  | cons c others =>
      rw [List.append_assoc, List.drop_left' rfl] at ends
      exact ⟨c, others, rfl, ends⟩

end Starts

/-- Outside of tags and comments the search passes every character but `<`. -/
theorem templateEnd?_of_ne {c : Char} (differs : c ≠ '<') (depth : Nat) (rest : List Char) :
    templateEnd? depth (c :: rest) = templateEnd? depth rest := by
  apply templateEnd?_of_other
  · simp [List.isPrefixOf, Ne.symm differs]
  · simp [startsEndTag, List.isPrefixOf, Ne.symm differs]
  · simp [startsOpeningTag, List.isPrefixOf, Ne.symm differs]

/-- The opening tag of a template in a template leads into it, unless it closes
itself. -/
theorem templateEnd?_openingTag (tag : WrittenTag) (depth : Nat) (rest : List Char) :
    templateEnd? depth ('<' :: templateName ++ (tag.source ++ rest)) =
      templateEnd? (if tag.selfClosing then depth else depth + 1) rest := by
  have behind : ('<' :: templateName ++ (tag.source ++ rest)).drop (templateName.length + 1) =
      tag.source ++ rest := rfl
  change _ = templateEnd? (if tag.meaning.selfClosing then depth else depth + 1) rest
  apply templateEnd?_of_openingTag
  · simp [templateName, List.isPrefixOf]
  · simp [startsEndTag, templateName, List.isPrefixOf]
  · rw [startsOpeningTag, behind, tag.endsName_source, Bool.and_true, List.isPrefixOf_iff_prefix]
    exact List.prefix_append _ _
  · rw [behind]
    exact tag.scan?_source rest

/-- The end tag of a template leads out of it. -/
theorem templateEnd?_endTag (gap : Blanks) (depth : Nat) (rest : List Char) :
    templateEnd? depth (endTag templateName gap ++ rest) =
      match depth with
      | 0 => some ⟨endTag templateName gap ++ rest, rest⟩
      | depth + 1 => templateEnd? depth rest := by
  apply templateEnd?_of_endTag
  · simp [endTag, List.isPrefixOf]
  · exact startsEndTag_endTag gap rest
  · exact after?_endTag gap rest (by decide)

/-- The search for the end of a template's body passes a balanced text. -/
theorem templateEnd?_of_balanced {body : List Char} (balanced : Balanced body) (depth : Nat)
    (behind : List Char) : templateEnd? depth (body ++ '<' :: behind) =
      templateEnd? depth ('<' :: behind) := by
  induction balanced generalizing depth behind with
  | nil => rfl
  | plain differs _ ih =>
      rw [List.cons_append, templateEnd?_of_ne differs]
      exact ih depth behind
  | comment comment _ ih =>
      rw [List.append_assoc, templateEnd?_of_comment (comment.startsComment _)
        (comment.after?_append _)]
      exact ih depth behind
  | markup notComment notEnd notOpening _ ih =>
      rw [List.cons_append, templateEnd?_of_other]
      · exact ih depth behind
      · intro starts
        exact notComment (isPrefix_of_append_less (by decide) starts)
      · intro starts
        rw [startsEndTag, Bool.and_eq_true] at starts
        exact notEnd (startsName_of_append_less (by decide) starts.1 starts.2)
      · intro starts
        rw [startsOpeningTag, Bool.and_eq_true] at starts
        exact notOpening (startsName_of_append_less (by decide) starts.1 starts.2)
  | selfClosing closed _ ih =>
      rw [List.append_assoc, List.append_assoc, templateEnd?_openingTag, if_pos closed]
      exact ih depth behind
  | @nested tag inner rest opened _ gap _ inside ih =>
      have leaves : templateEnd? (depth + 1) (inner ++
          (endTag templateName gap ++ (rest ++ '<' :: behind))) =
            templateEnd? (depth + 1) (endTag templateName gap ++ (rest ++ '<' :: behind)) :=
        inside (depth + 1) _
      simp only [List.append_assoc] at leaves ⊢
      rw [templateEnd?_openingTag, opened, if_neg Bool.false_ne_true, leaves, templateEnd?_endTag]
      exact ih depth behind

/-- Behind a balanced text the end tag of a template is found. -/
theorem templateEnd?_balanced_endTag {body : List Char} (balanced : Balanced body) (gap : Blanks)
    (depth : Nat) (rest : List Char) :
    templateEnd? depth (body ++ (endTag templateName gap ++ rest)) =
      match depth with
      | 0 => some ⟨endTag templateName gap ++ rest, rest⟩
      | depth + 1 => templateEnd? depth rest :=
  (templateEnd?_of_balanced balanced depth _).trans (templateEnd?_endTag gap depth rest)

/-- What may stand between an opening tag and its end tag. -/
inductive Enclosed (name body : List Char) : Prop where
  | raw (notTemplate : name ≠ templateName) (plain : ¬HoldsEndTag name body)
  | template (isTemplate : name = templateName) (balanced : Balanced body)

/-- The end of a body is the end tag behind it. -/
theorem bodyEnd?_of_enclosed {name : TagName} {body : List Char} (enclosed : Enclosed name.text body)
    (gap : Blanks) (rest : List Char) :
    bodyEnd? name.text (body ++ (endTag name.text gap ++ rest)) =
      some ⟨endTag name.text gap ++ rest, rest⟩ := by
  cases enclosed with
  | raw notTemplate plain =>
      rw [bodyEnd?, if_neg notTemplate]
      exact rawEnd?_append (name.not_mem (by decide)) plain (startsEndTag_endTag gap rest)
        (after?_endTag gap rest (name.not_mem (by decide)))
  | template isTemplate balanced =>
      rw [bodyEnd?, if_pos isTemplate, isTemplate]
      exact templateEnd?_balanced_endTag balanced gap 0 rest

end ScriptView.Component
