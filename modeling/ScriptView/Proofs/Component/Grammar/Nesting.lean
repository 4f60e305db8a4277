import ScriptView.Proofs.Component.Grammar.Body

/-!
# Templates in templates

The body of a template as a row of texts, comments and templates, to any depth of
these. Such a row is a balanced text (`TemplateBody.balanced`), and the search for the
end of the body, which counts the templates that are open, passes it at every count. The
end tag behind the row is the one that is found, and where none stands there no end is
found.
-/

namespace ScriptView.Component

open Text

/-! ## Rows -/

/-- No `<` in front of this text starts a comment or the tag of a template. -/
structure StartsNothing (text : List Char) : Prop where
  notComment : ¬['!', '-', '-'] <+: text
  notEnd : ¬StartsName ('/' :: templateName) text
  notOpening : ¬StartsName templateName text

/-- A text in which no `<` starts a comment or the tag of a template. -/
def IsPlain (text : List Char) : Prop :=
  ∀ front rest, text = front ++ '<' :: rest → StartsNothing rest

/-- The bodies of templates as rows of texts, comments and templates. No text stands
right behind another one: a row may go on behind a text or behind something else. -/
inductive TemplateBody : (afterText : Bool) → List Char → Prop where
  | nil {afterText : Bool} : TemplateBody afterText []
  | text {chunk rest : List Char} (plain : IsPlain chunk) (behind : TemplateBody true rest) :
      TemplateBody false (chunk ++ rest)
  | comment {afterText : Bool} {text rest : List Char} (comment : IsComment text)
      (behind : TemplateBody false rest) : TemplateBody afterText (text ++ rest)
  | selfClosing {afterText : Bool} {tag : WrittenTag} {rest : List Char}
      (closed : tag.selfClosing = true) (behind : TemplateBody false rest) :
      TemplateBody afterText ('<' :: templateName ++ (tag.source ++ rest))
  | nested {afterText : Bool} {tag : WrittenTag} {inner rest : List Char}
      (opened : tag.selfClosing = false) (inside : TemplateBody false inner) (gap : Blanks)
      (behind : TemplateBody false rest) :
      TemplateBody afterText
        ('<' :: templateName ++ (tag.source ++ (inner ++ (endTag templateName gap ++ rest))))

/-! ## Rows and balanced texts -/

section Starts

variable {word text rest : List Char}

theorem StartsName.of_append_less (free : '<' ∉ word)
    (starts : StartsName word (text ++ '<' :: rest)) : StartsName word text := by
  rcases startsName_iff.mp starts with ⟨starts, _, ends⟩
  exact startsName_of_append_less free starts ends

/-- What starts in a text ends in front of the next `<`. -/
theorem StartsNothing.append_less (nothing : StartsNothing text) (rest : List Char) :
    StartsNothing (text ++ '<' :: rest) where
  notComment starts := nothing.notComment
    (isPrefix_of_append_less (by decide) (List.isPrefixOf_iff_prefix.mpr starts))
  notEnd starts := nothing.notEnd (starts.of_append_less (by decide))
  notOpening starts := nothing.notOpening (starts.of_append_less (by decide))

end Starts

theorem IsPlain.tail {c : Char} {text : List Char} (plain : IsPlain (c :: text)) : IsPlain text := by
  intro front rest split
  exact plain (c :: front) rest (by rw [split, List.cons_append])

theorem IsPlain.cons {c : Char} {text : List Char} (plain : IsPlain text)
    (nothing : c = '<' → StartsNothing text) : IsPlain (c :: text) := by
  intro front rest split
  cases front with
  | nil =>
      cases split
      exact nothing rfl
  | cons d front =>
      rw [List.cons_append, List.cons.injEq] at split
      exact plain front rest split.2

theorem isPlain_nil : IsPlain [] := by
  intro front rest split
  simp at split

theorem isPlain_cons_iff {c : Char} {text : List Char} :
    IsPlain (c :: text) ↔ (c = '<' → StartsNothing text) ∧ IsPlain text := by
  constructor
  · intro plain
    refine ⟨?_, plain.tail⟩
    intro less
    exact plain [] text (by rw [less, List.nil_append])
  · intro plain
    exact plain.2.cons plain.1

instance (text : List Char) : Decidable (StartsNothing text) :=
  decidable_of_iff (¬['!', '-', '-'] <+: text ∧ ¬StartsName ('/' :: templateName) text ∧
    ¬StartsName templateName text)
    ⟨fun ⟨notComment, notEnd, notOpening⟩ => ⟨notComment, notEnd, notOpening⟩,
      fun nothing => ⟨nothing.notComment, nothing.notEnd, nothing.notOpening⟩⟩

instance decidableIsPlain : (text : List Char) → Decidable (IsPlain text)
  | [] => isTrue isPlain_nil
  | _ :: text =>
      letI := decidableIsPlain text
      decidable_of_iff _ isPlain_cons_iff.symm

/-- What follows a text starts with `<`. -/
theorem TemplateBody.starts {text : List Char} (written : TemplateBody true text) :
    text = [] ∨ ∃ rest, text = '<' :: rest := by
  cases written with
  | nil => exact .inl rfl
  | comment comment _ =>
      rcases comment.opens with ⟨behind, rfl⟩
      exact .inr ⟨_, rfl⟩
  | selfClosing | nested => exact .inr ⟨_, rfl⟩

theorem Balanced.append {chunk rest : List Char} (balanced : Balanced rest) (plain : IsPlain chunk)
    (starts : rest = [] ∨ ∃ tail, rest = '<' :: tail) : Balanced (chunk ++ rest) := by
  induction chunk with
  | nil => exact balanced
  | cons c chunk ih =>
      have behind := ih plain.tail
      by_cases less : c = '<'
      · subst less
        have nothing : StartsNothing (chunk ++ rest) := by
          have here := plain [] chunk rfl
          rcases starts with rfl | ⟨tail, rfl⟩
          · rw [List.append_nil]
            exact here
          · exact here.append_less tail
        exact .markup nothing.notComment nothing.notEnd nothing.notOpening behind
      · exact .plain less behind

theorem TemplateBody.balanced {afterText : Bool} {text : List Char}
    (written : TemplateBody afterText text) : Balanced text := by
  induction written with
  | nil => exact .nil
  | text plain behind ih => exact ih.append plain behind.starts
  | comment comment _ ih => exact .comment comment ih
  | selfClosing closed _ ih => exact .selfClosing closed ih
  | nested opened _ gap _ inside ih => exact .nested opened inside gap ih

/-! ## The end of a body -/

/-- A word at the start of a text that is a whole name there, though no character
follows it, is the text. -/
theorem eq_of_not_startsName {word text : List Char} (starts : word.isPrefixOf text = true)
    (ends : endsName (text.drop word.length) = true) (cut : ¬StartsName word text) :
    text = word := by
  have short : text.length ≤ word.length := by
    apply Nat.le_of_not_lt
    intro longer
    exact cut (startsName_iff.mpr ⟨starts, longer, ends⟩)
  exact ((List.isPrefixOf_iff_prefix.mp starts).eq_of_length_le short).symm

/-- An end tag that breaks off behind its name leaves the body without an end. -/
theorem templateEnd?_cutEndTag (depth : Nat) :
    templateEnd? depth ('<' :: '/' :: templateName) = none := by
  rw [templateEnd?.eq_def]
  split
  · rfl
  · next eq =>
    cases eq
    rw [if_neg (by decide), if_pos (by decide)]
    split
    · rfl
    · next passed => cases passed

/-- So does an opening tag. -/
theorem templateEnd?_cutOpeningTag (depth : Nat) :
    templateEnd? depth ('<' :: templateName) = none := by
  rw [templateEnd?.eq_def]
  split
  · rfl
  · next eq =>
    cases eq
    rw [if_neg (by decide), if_neg (by decide), if_pos (by decide)]
    split
    · rfl
    · next scanned =>
      exact absurd (OpeningTag.scan?_suffix scanned).2 (Nat.not_lt_zero _)

/-- A balanced text that nothing follows has no end, whatever the depth. -/
theorem templateEnd?_eq_none_of_balanced {body : List Char} (balanced : Balanced body)
    (depth : Nat) : templateEnd? depth body = none := by
  induction balanced generalizing depth with
  | nil => rw [templateEnd?]
  | plain differs _ ih => rw [templateEnd?_of_ne differs, ih]
  | comment comment _ ih =>
      rw [templateEnd?_of_comment (comment.startsComment _) (comment.after?_append _), ih]
  | @markup rest notComment notEnd notOpening _ ih =>
      have noComment : ¬['<', '!', '-', '-'].isPrefixOf ('<' :: rest) = true := fun starts =>
        notComment (List.isPrefixOf_iff_prefix.mp starts)
      -- At the end of the text a name may end without a character behind it.
      by_cases ends : startsEndTag templateName ('<' :: rest) = true
      · rw [startsEndTag, Bool.and_eq_true] at ends
        have cut : rest = '/' :: templateName := eq_of_not_startsName ends.1 ends.2 notEnd
        rw [cut]
        exact templateEnd?_cutEndTag depth
      · by_cases opens : startsOpeningTag templateName ('<' :: rest) = true
        · rw [startsOpeningTag, Bool.and_eq_true] at opens
          have cut : rest = templateName := eq_of_not_startsName opens.1 opens.2 notOpening
          rw [cut]
          exact templateEnd?_cutOpeningTag depth
        · rw [templateEnd?_of_other noComment ends opens, ih]
  | selfClosing closed _ ih =>
      rw [templateEnd?_openingTag, ih]
  | nested opened inside gap _ _ ih =>
      rw [templateEnd?_openingTag, opened, if_neg Bool.false_ne_true,
        templateEnd?_balanced_endTag inside]
      exact ih depth

/-- The end of a template's body is the end tag behind it, whatever follows: it is
found by the tail that starts with its `<` and the one behind its `>`. Without an
end tag behind it the body has no end. -/
theorem templateEnd?_of_templateBody {body : List Char} (written : TemplateBody false body) :
    (∀ (gap : Blanks) (rest : List Char),
      templateEnd? 0 (body ++ (endTag templateName gap ++ rest)) =
        some ⟨endTag templateName gap ++ rest, rest⟩) ∧
      templateEnd? 0 body = none := by
  have balanced := written.balanced
  constructor
  · intro gap rest
    exact templateEnd?_balanced_endTag balanced gap 0 rest
  · exact templateEnd?_eq_none_of_balanced balanced 0

/-- A template in a template, with a template and an attribute in it, behind a text
and a comment that look like end tags. -/
theorem templateEnd?_of_templateBody_nested :
    ∃ body, TemplateBody false body ∧
      String.ofList body = "</templates><!--</template>--><template a=\"</template>\">" ++
        "<template/>b</template>" ∧
      templateEnd? 0 (body ++ "</template>c".toList) = some ⟨"</template>c".toList, ['c']⟩ ∧
      templateEnd? 0 body = none := by
  have plain : IsPlain "</templates>".toList := by decide +kernel
  have comment : IsComment "<!--</template>-->".toList := by decide +kernel
  have plainInside : IsPlain ['b'] := by decide +kernel
  have inside : TemplateBody false _ :=
    @TemplateBody.selfClosing false ⟨[], ⟨[], by simp⟩, true, by simp⟩ _ rfl
      (.text plainInside .nil)
  have written : TemplateBody false _ :=
    .text plain (.comment comment (@TemplateBody.nested false
      ⟨[⟨⟨[' '], by simp [isMarkupBlank]⟩, by simp, ['a'], by simp, by simp [isMarkupBlank],
        some ⟨⟨[], by simp⟩, ⟨[], by simp⟩,
          .quoted '"' "</template>".toList (.inl rfl) (by decide +kernel)⟩⟩], ⟨[], by simp⟩, false,
        by simp⟩ _ _ rfl inside ⟨[], by simp⟩ .nil))
  rcases templateEnd?_of_templateBody written with ⟨found, none⟩
  exact ⟨_, written, by decide +kernel, found ⟨[], by simp⟩ ['c'], none⟩

end ScriptView.Component
