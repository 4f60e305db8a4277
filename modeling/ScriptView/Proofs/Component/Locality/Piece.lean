import ScriptView.Proofs.Component.Locality.Tag

/-!
# Pieces are read locally

Bodies and pieces depend on the text up to their end only, as the tags do that
they are made of. The main statement is `pieces_local`: pieces that are followed
by others stay what they are, whatever else follows them that starts in the same
way.
-/

namespace ScriptView.Component

open Text

variable {front rest : List Char} (other : List Char)

/-! ## Ends of bodies -/

theorem startsEndTag_local {name : List Char} (closes : '>' ∈ front) (free : '>' ∉ name) :
    startsEndTag name (front ++ rest) = startsEndTag name (front ++ other) := by
  have word : '>' ∉ '<' :: '/' :: name := by simp [free]
  simpa [startsEndTag] using startsName_append_of_mem _ closes word

theorem startsOpeningTag_local {name : List Char} (closes : '>' ∈ front) (free : '>' ∉ name) :
    startsOpeningTag name (front ++ rest) = startsOpeningTag name (front ++ other) := by
  have word : '>' ∉ '<' :: name := by simp [free]
  simpa [startsOpeningTag] using startsName_append_of_mem _ closes word

/-- What a raw body ends with: the end tag of its name, up to the first `>`. -/
theorem rawEnd?_eq_some {name text : List Char} {found : EndTag}
    (read : rawEnd? name text = some found) :
    startsEndTag name found.start = true ∧ after? ['>'] found.start = some found.behind := by
  induction text with
  | nil => contradiction
  | cons c text ih =>
      rw [rawEnd?] at read
      split at read
      · next starts =>
        rcases Option.map_eq_some_iff.mp read with ⟨behind, passed, rfl⟩
        exact ⟨starts, passed⟩
      · exact ih read

/-- So does the body of a template. -/
theorem templateEnd?_eq_some {depth : Nat} {text : List Char} {found : EndTag}
    (read : templateEnd? depth text = some found) :
    startsEndTag templateName found.start = true ∧
      after? ['>'] found.start = some found.behind := by
  fun_induction templateEnd? depth text with
  | case1 | case2 | case4 | case7 => simp at read
  | case3 _ _ _ _ _ _ _ ih => exact ih read
  | case5 _ _ _ ends _ passed =>
      cases read
      exact ⟨ends, passed⟩
  | case6 _ _ _ _ _ _ _ _ ih => exact ih read
  | case8 _ _ _ _ _ _ _ _ _ _ ih => exact ih read
  | case9 _ _ _ _ _ _ ih => exact ih read

theorem bodyEnd?_eq_some {name text : List Char} {found : EndTag}
    (read : bodyEnd? name text = some found) :
    startsEndTag name found.start = true ∧ after? ['>'] found.start = some found.behind := by
  rw [bodyEnd?] at read
  split at read
  · next same =>
    rw [same]
    exact templateEnd?_eq_some read
  · exact rawEnd?_eq_some read

/-- A body's end tag ends with `>`. -/
theorem rawEnd?_closes {name text : List Char} {found : EndTag}
    (read : rawEnd? name text = some found) : ∃ inner, text = inner ++ '>' :: found.behind := by
  rcases after?_eq_some (rawEnd?_eq_some read).2 with ⟨inner, eq⟩
  rcases (rawEnd?_suffix read).1 with ⟨skipped, whole⟩
  exact ⟨skipped ++ inner, by rw [← whole, eq]; simp⟩

theorem mem_of_closes {inner : List Char} (whole : front ++ rest = inner ++ '>' :: rest) :
    '>' ∈ front := by
  rw [List.append_cons] at whole
  rw [List.append_cancel_right whole]
  simp

/-- What is read last in a text ends in its front. -/
theorem exists_eq_append_of_closes {skipped behind inner : List Char}
    (whole : skipped ++ behind = front ++ rest) (closes : behind = inner ++ '>' :: rest) :
    ∃ mid, behind = mid ++ rest ∧ front = skipped ++ mid := by
  rw [List.append_cons] at closes
  rw [closes, ← List.append_assoc] at whole
  exact ⟨inner ++ ['>'], closes, (List.append_cancel_right whole).symm⟩

theorem rawEnd?_local {name mid : List Char} (free : '>' ∉ name)
    (read : rawEnd? name (front ++ rest) = some ⟨mid ++ rest, rest⟩) :
    rawEnd? name (front ++ other) = some ⟨mid ++ other, other⟩ := by
  induction front with
  | nil =>
      rcases rawEnd?_closes read with ⟨inner, whole⟩
      exact absurd (mem_of_closes whole) List.not_mem_nil
  | cons c front ih =>
      rcases rawEnd?_closes read with ⟨inner, whole⟩
      have same : startsEndTag name (c :: front ++ rest) = startsEndTag name (c :: front ++ other) :=
        startsEndTag_local other (mem_of_closes whole) free
      rw [List.cons_append, rawEnd?, ← List.cons_append] at read ⊢
      rw [← same]
      split at read
      · next starts =>
        rw [if_pos starts]
        rcases Option.map_eq_some_iff.mp read with ⟨behind, passed, same⟩
        simp only [EndTag.mk.injEq] at same
        rcases same with ⟨start, rfl⟩
        rw [after?_local _ (by simp) passed, ← List.append_cancel_right start]
        rfl
      · next differs =>
        rw [if_neg differs]
        exact ih read

section Template

variable {depth : Nat} {text behind : List Char}

/-- A comment in a template's body is passed. -/
theorem templateEnd?_of_comment (starts : ['<', '!', '-', '-'].isPrefixOf text = true)
    (passed : after? ['-', '-', '>'] text = some behind) :
    templateEnd? depth text = templateEnd? depth behind := by
  rw [templateEnd?.eq_def]
  split
  · simp at starts
  · rw [if_pos starts]
    split
    · next none =>
      rw [passed] at none
      contradiction
    · next found =>
      rw [passed] at found
      cases found
      rfl

/-- An end tag ends the body or leads out of the innermost template in it. -/
theorem templateEnd?_of_endTag (notComment : ¬['<', '!', '-', '-'].isPrefixOf text = true)
    (starts : startsEndTag templateName text = true) (passed : after? ['>'] text = some behind) :
    templateEnd? depth text =
      match depth with
      | 0 => some ⟨text, behind⟩
      | depth + 1 => templateEnd? depth behind := by
  rw [templateEnd?.eq_def]
  split
  · simp [startsEndTag] at starts
  · rw [if_neg notComment, if_pos starts]
    split
    · next none =>
      rw [passed] at none
      contradiction
    · next found =>
      rw [passed] at found
      cases found
      rfl

/-- An opening tag leads into a further template unless it closes itself. -/
theorem templateEnd?_of_openingTag {tag : OpeningTag}
    (notComment : ¬['<', '!', '-', '-'].isPrefixOf text = true)
    (notEnd : ¬startsEndTag templateName text = true)
    (starts : startsOpeningTag templateName text = true)
    (scanned : OpeningTag.scan? (text.drop (templateName.length + 1)) = some (tag, behind)) :
    templateEnd? depth text =
      templateEnd? (if tag.selfClosing then depth else depth + 1) behind := by
  rw [templateEnd?.eq_def]
  split
  · simp [startsOpeningTag] at starts
  · rw [if_neg notComment, if_neg notEnd, if_pos starts]
    split
    · next none =>
      rw [List.drop_succ_cons, none] at scanned
      contradiction
    · next found =>
      rw [List.drop_succ_cons, found] at scanned
      cases scanned
      rfl

/-- Any other character of a template's body is passed. -/
theorem templateEnd?_of_other {c : Char}
    (notComment : ¬['<', '!', '-', '-'].isPrefixOf (c :: text) = true)
    (notEnd : ¬startsEndTag templateName (c :: text) = true)
    (notOpening : ¬startsOpeningTag templateName (c :: text) = true) :
    templateEnd? depth (c :: text) = templateEnd? depth text := by
  rw [templateEnd?, if_neg notComment, if_neg notEnd, if_neg notOpening]

end Template

theorem templateEnd?_closes {depth : Nat} {text : List Char} {found : EndTag}
    (read : templateEnd? depth text = some found) :
    ∃ inner, text = inner ++ '>' :: found.behind := by
  fun_induction templateEnd? depth text with
  | case1 | case2 | case4 | case7 => simp at read
  | case3 _ _ _ _ _ passed _ ih =>
      rcases ih read with ⟨inner, eq⟩
      rcases suffix_of_after? passed with ⟨skipped, whole⟩
      exact ⟨skipped ++ inner, by rw [← whole, eq]; simp⟩
  | case5 _ _ _ _ _ passed =>
      cases read
      rcases after?_eq_some passed with ⟨inner, eq⟩
      exact ⟨inner, by rw [eq]; simp⟩
  | case6 _ _ _ _ _ passed _ _ ih =>
      rcases ih read with ⟨inner, eq⟩
      rcases suffix_of_after? passed with ⟨skipped, whole⟩
      exact ⟨skipped ++ inner, by rw [← whole, eq]; simp⟩
  | case8 _ c rest _ _ _ _ _ scanned _ ih =>
      rcases ih read with ⟨inner, eq⟩
      have toText := (OpeningTag.scan?_suffix scanned).1.trans
        ((List.drop_suffix _ rest).trans (List.suffix_cons c rest))
      rcases toText with ⟨skipped, whole⟩
      exact ⟨skipped ++ inner, by rw [← whole, eq]; simp⟩
  | case9 _ c _ _ _ _ ih =>
      rcases ih read with ⟨inner, eq⟩
      exact ⟨c :: inner, by rw [eq, List.cons_append]⟩

theorem startsComment_local (closes : '>' ∈ front) :
    ['<', '!', '-', '-'].isPrefixOf (front ++ rest) =
      ['<', '!', '-', '-'].isPrefixOf (front ++ other) := by
  rw [isPrefixOf_append_of_mem closes (by decide), isPrefixOf_append_of_mem closes (by decide)]

/-- If the end of a template's body is found behind a skipped text, then the skipped
text and a `>` behind it belong to the text up to the end. -/
theorem exists_last_of_templateEnd? {depth : Nat} {skipped behind mid : List Char}
    (read : templateEnd? depth behind = some ⟨mid ++ rest, rest⟩)
    (split : skipped ++ behind = front ++ rest) :
    ∃ last, behind = last ++ rest ∧ front = skipped ++ last ∧ '>' ∈ front := by
  rcases templateEnd?_closes read with ⟨inner, closing⟩
  rcases exists_eq_append_of_closes split closing with ⟨last, rfl, rfl⟩
  exact ⟨last, rfl, rfl, List.mem_append_right skipped (mem_of_closes closing)⟩

theorem templateEnd?_local {depth : Nat} {mid : List Char}
    (read : templateEnd? depth (front ++ rest) = some ⟨mid ++ rest, rest⟩) :
    templateEnd? depth (front ++ other) = some ⟨mid ++ other, other⟩ := by
  have free : '>' ∉ templateName := by decide
  generalize whole : front ++ rest = text at read
  fun_induction templateEnd? depth text generalizing front with
  | case1 | case2 | case4 | case7 => simp at read
  | case3 _ c tail comment behind passed _ ih =>
      rcases suffix_of_after? passed with ⟨skipped, eq⟩
      rcases exists_last_of_templateEnd? read (eq.trans whole.symm) with ⟨last, rfl, rfl, closes⟩
      rw [← whole, startsComment_local other closes] at comment
      rw [← eq] at passed
      have moved := after?_local (last ++ other) (by simp) passed
      rw [← List.append_assoc] at moved
      rw [templateEnd?_of_comment comment moved]
      exact ih rfl read
  | case5 c tail notComment ends behind passed =>
      simp only [Option.some.injEq, EndTag.mk.injEq] at read
      rcases read with ⟨start, rfl⟩
      rw [← whole] at notComment ends passed start
      have same : front = mid := List.append_cancel_right start
      subst same
      rcases after?_eq_some passed with ⟨inner, closing⟩
      rw [List.append_assoc] at closing
      have closes := mem_of_closes closing
      rw [startsComment_local other closes] at notComment
      rw [startsEndTag_local other closes free] at ends
      rw [templateEnd?_of_endTag notComment ends (after?_local _ (by simp) passed)]
  | case6 c tail notComment ends behind passed _ depth ih =>
      rcases suffix_of_after? passed with ⟨skipped, eq⟩
      rcases exists_last_of_templateEnd? read (eq.trans whole.symm) with ⟨last, rfl, rfl, closes⟩
      rw [← whole, startsComment_local other closes] at notComment
      rw [← whole, startsEndTag_local other closes free] at ends
      rw [← eq] at passed
      have moved := after?_local (last ++ other) (by simp) passed
      rw [← List.append_assoc] at moved
      rw [templateEnd?_of_endTag notComment ends moved]
      exact ih rfl read
  | case8 depth c tail notComment notEnd opens tag behind scanned _ ih =>
      rcases (OpeningTag.scan?_suffix scanned).1.trans ((List.drop_suffix _ tail).trans
        (List.suffix_cons c tail)) with ⟨skipped, eq⟩
      rcases exists_last_of_templateEnd? read (eq.trans whole.symm) with ⟨last, rfl, rfl, closes⟩
      rw [← whole, startsComment_local other closes] at notComment
      rw [← whole, startsEndTag_local other closes free] at notEnd
      rw [← whole, startsOpeningTag_local other closes free] at opens
      have inFront := opens
      rw [startsOpeningTag, Bool.and_eq_true, isPrefixOf_append_of_mem closes (by decide)] at inFront
      have fits := (List.isPrefixOf_iff_prefix.mp inFront.1).length_le
      rw [← List.drop_succ_cons (a := c), ← whole] at scanned
      have moved := OpeningTag.scan?_drop_local other fits scanned
      rw [templateEnd?_of_openingTag notComment notEnd opens moved]
      exact ih rfl read
  | case9 depth c tail notComment notEnd notOpening ih =>
      have single : [c] ++ tail = c :: tail := rfl
      rcases exists_last_of_templateEnd? read (single.trans whole.symm) with
        ⟨last, rfl, rfl, closes⟩
      rw [← whole, startsComment_local other closes] at notComment
      rw [← whole, startsEndTag_local other closes free] at notEnd
      rw [← whole, startsOpeningTag_local other closes free] at notOpening
      rw [List.append_assoc, List.singleton_append] at notComment notEnd notOpening ⊢
      rw [templateEnd?_of_other notComment notEnd notOpening]
      exact ih rfl read

/-- The end of a body depends on the text up to it only. -/
theorem bodyEnd?_local {name mid : List Char} (free : '>' ∉ name)
    (read : bodyEnd? name (front ++ rest) = some ⟨mid ++ rest, rest⟩) :
    bodyEnd? name (front ++ other) = some ⟨mid ++ other, other⟩ := by
  rw [bodyEnd?] at read ⊢
  split at read
  · next same =>
    rw [if_pos same]
    exact templateEnd?_local _ read
  · next differs =>
    rw [if_neg differs]
    exact rawEnd?_local _ free read

/-! ## Pieces -/

/-- A common tail does not count for what stands before it. -/
theorem before_append_both (mid : List Char) :
    before (front ++ rest) (mid ++ rest) = before front mid := by
  rw [before, before, List.length_append, List.length_append, Nat.add_sub_add_right,
    List.take_append_of_le_length (Nat.sub_le _ _)]

/-- A name ends before the first character that is not of a name. -/
theorem nameAt_append_of_mem {stop : Char} (member : stop ∈ front) (stops : isNameChar stop = false) :
    nameAt (front ++ rest) = nameAt front := by
  cases front with
  | nil => contradiction
  | cons c front =>
      rw [List.cons_append, nameAt, nameAt, ← List.cons_append,
        takeWhile_append_of_mem member stops]

theorem nameAt_isPrefix (text : List Char) : nameAt text <+: text := by
  cases text with
  | nil => exact List.prefix_refl _
  | cons c text =>
      rw [nameAt]
      split
      · exact List.takeWhile_prefix _
      · exact List.nil_prefix

theorem not_mem_nameAt {stop : Char} (stops : isNameChar stop = false) (text : List Char) :
    stop ∉ nameAt text := by
  cases text with
  | nil => exact List.not_mem_nil
  | cons c text =>
      rw [nameAt]
      split
      · intro member
        rw [List.mem_takeWhile_imp member] at stops
        contradiction
      · exact List.not_mem_nil

namespace Piece

theorem ofElement_local {name mid : List Char} {tag : OpeningTag} {piece : Piece}
    (free : '>' ∉ name) (more : rest ≠ [])
    (read : ofElement (front ++ rest) name tag (mid ++ rest) = (piece, rest)) :
    ofElement (front ++ other) name tag (mid ++ other) = (piece, other) := by
  simp only [ofElement, before_append_both] at read ⊢
  split at read
  · next closed =>
    simp only [Prod.mk.injEq, List.append_left_eq_self] at read
    rcases read with ⟨rfl, rfl⟩
    rw [if_pos closed, List.nil_append]
  · next notClosed =>
    rw [if_neg notClosed]
    split at read
    · next start behind found =>
      simp only [Prod.mk.injEq] at read
      rcases read with ⟨rfl, rfl⟩
      rcases (bodyEnd?_suffix found).2 with ⟨last, begins⟩
      change last ++ behind = start at begins
      subst begins
      rw [bodyEnd?_local other free found]
      simp [before_append_both]
    · next missing =>
      exact absurd (Prod.mk.inj read).2.symm more

theorem ofElement_suffix (text name : List Char) (tag : OpeningTag) (tail : List Char) :
    (ofElement text name tag tail).2 <:+ tail := by
  rw [ofElement]
  split
  · exact List.suffix_refl tail
  · split
    · next start behind found =>
      exact (bodyEnd?_suffix found).2.trans (bodyEnd?_suffix found).1
    · exact List.nil_suffix

/-- A word of which only the first character may be `<` is looked for in text up
to the next `<`. -/
theorem isPrefixOf_cons_local {c w : Char} {word : List Char} (free : '<' ∉ word) :
    (w :: word).isPrefixOf (c :: (front ++ '<' :: rest)) =
      (w :: word).isPrefixOf (c :: (front ++ '<' :: other)) := by
  have member : '<' ∈ front ++ ['<'] := by simp
  have before : word.isPrefixOf (front ++ ['<'] ++ rest) = word.isPrefixOf (front ++ ['<']) :=
    isPrefixOf_append_of_mem member free
  have after : word.isPrefixOf (front ++ ['<'] ++ other) = word.isPrefixOf (front ++ ['<']) :=
    isPrefixOf_append_of_mem member free
  simp only [List.append_assoc, List.singleton_append] at before after
  rw [List.isPrefixOf, List.isPrefixOf, before, after]

theorem openedName_cons (c : Char) (text : List Char) :
    openedName (c :: text) = if c = '<' then nameAt text else [] := by
  rw [openedName.eq_def]
  split
  · next same =>
    cases same
    rfl
  · next other =>
    rw [if_neg]
    intro same
    exact other text (by rw [same])

theorem first_local_of_comment {c : Char}
    (comment : ['<', '!', '-', '-'].isPrefixOf (c :: front ++ rest) = true)
    (passed : after? ['-', '-', '>'] (c :: front ++ rest) = some rest) :
    first c (front ++ other) = (.comment (c :: front), other) := by
  rcases after?_eq_some passed with ⟨inner, closing⟩
  have closes : '>' ∈ c :: front := by
    rw [List.append_cancel_right closing]
    simp
  rw [startsComment_local other closes] at comment
  simp only [first, ← List.cons_append, if_pos comment, after?_local _ (by simp) passed,
    before_append_right]

theorem first_local_of_endTag {c : Char}
    (notComment : ¬['<', '!', '-', '-'].isPrefixOf (c :: front ++ rest) = true)
    (ends : ['<', '/'].isPrefixOf (c :: front ++ rest) = true)
    (passed : after? ['>'] (c :: front ++ rest) = some rest) :
    first c (front ++ other) = (.endTag (c :: front), other) := by
  rcases after?_eq_some passed with ⟨inner, closing⟩
  have closes : '>' ∈ c :: front := by
    rw [List.append_cancel_right closing]
    simp
  have free : '>' ∉ ['<', '/'] := by decide
  rw [startsComment_local other closes] at notComment
  rw [isPrefixOf_append_of_mem closes free] at ends
  simp only [first, ← List.cons_append, if_neg notComment, isPrefixOf_append_of_mem closes free,
    if_pos ends, after?_local _ (by simp) passed, before_append_right]

/-- Text ends at the next `<`, whatever is behind it. -/
theorem first_local_of_text {c : Char}
    (notComment : ¬['<', '!', '-', '-'].isPrefixOf (c :: (front ++ '<' :: rest)) = true)
    (notEnd : ¬['<', '/'].isPrefixOf (c :: (front ++ '<' :: rest)) = true)
    (unnamed : openedName (c :: (front ++ '<' :: rest)) = [])
    (plain : ∀ d ∈ front, (d != '<') = true) :
    first c (front ++ '<' :: other) = (.text (c :: front), '<' :: other) := by
  rw [isPrefixOf_cons_local other (by decide)] at notComment notEnd
  have member : '<' ∈ front ++ ['<'] := by simp
  have nameEq : nameAt (front ++ '<' :: rest) = nameAt (front ++ '<' :: other) := by
    rw [List.append_cons, List.append_cons front _ other,
      nameAt_append_of_mem member (by decide), nameAt_append_of_mem member (by decide)]
  rw [openedName_cons, nameEq, ← openedName_cons] at unnamed
  simp only [first, if_neg notComment, if_neg notEnd, if_pos unnamed]
  rw [List.takeWhile_append_of_pos plain, List.dropWhile_append_of_pos plain]
  simp

/-- An element depends on the text up to its end only. -/
theorem first_local_of_element {c : Char} {piece : Piece} {tag : OpeningTag} {tail : List Char}
    (more : rest ≠ [])
    (notComment : ¬['<', '!', '-', '-'].isPrefixOf (c :: (front ++ rest)) = true)
    (notEnd : ¬['<', '/'].isPrefixOf (c :: (front ++ rest)) = true)
    (named : openedName (c :: (front ++ rest)) ≠ [])
    (scanned : OpeningTag.scan?
      ((front ++ rest).drop (openedName (c :: (front ++ rest))).length) = some (tag, tail))
    (read : ofElement (c :: (front ++ rest)) (openedName (c :: (front ++ rest))) tag tail =
      (piece, rest)) :
    first c (front ++ other) = (piece, other) := by
  have inside := ofElement_suffix (c :: (front ++ rest)) (openedName (c :: (front ++ rest))) tag tail
  rw [read] at inside
  rcases inside with ⟨mid, eq⟩
  change mid ++ rest = tail at eq
  subst eq
  have closes : '>' ∈ front := by
    rcases OpeningTag.scan?_closes scanned with ⟨inner, closing⟩
    rcases List.drop_suffix (openedName (c :: (front ++ rest))).length (front ++ rest) with
      ⟨skipped, whole⟩
    rw [closing, ← List.cons_append, ← List.append_assoc, ← List.append_assoc] at whole
    rw [← List.append_cancel_right whole]
    simp
  have closesAll := List.mem_cons_of_mem c closes
  have sameName : ∀ behind, openedName (c :: (front ++ behind)) = openedName (c :: front) := by
    intro behind
    rw [openedName_cons, openedName_cons, nameAt_append_of_mem closes (by decide)]
  rw [← List.cons_append, startsComment_local other closesAll] at notComment
  rw [← List.cons_append, isPrefixOf_append_of_mem closesAll (by decide)] at notEnd
  rw [sameName] at named scanned read
  have free : '>' ∉ openedName (c :: front) := by
    rw [openedName_cons]
    split
    · exact not_mem_nameAt (by decide) front
    · exact List.not_mem_nil
  have fits : (openedName (c :: front)).length ≤ front.length := by
    rw [openedName_cons]
    split
    · exact (nameAt_isPrefix front).length_le
    · exact Nat.zero_le _
  rw [← List.cons_append] at read
  simp only [first, ← List.cons_append, if_neg notComment,
    isPrefixOf_append_of_mem closesAll (show '>' ∉ ['<', '/'] by decide), if_neg notEnd]
  rw [List.cons_append, sameName, if_neg named,
    OpeningTag.scan?_drop_local other fits scanned]
  exact ofElement_local other free more read

/-- What is passed in front of a `<` holds none. -/
theorem takeWhile_eq_of_dropWhile_eq
    (dropped : (front ++ rest).dropWhile (· != '<') = rest) :
    (front ++ rest).takeWhile (· != '<') = front ∧ ∀ d ∈ front, (d != '<') = true := by
  have split := List.takeWhile_append_dropWhile (p := (· != '<')) (l := front ++ rest)
  rw [dropped] at split
  have taken := List.append_cancel_right split
  constructor
  · exact taken
  · intro d member
    rw [← taken] at member
    exact List.mem_takeWhile_imp (p := (· != '<')) member

/-- A piece that is followed by something stays what it is when something else
follows it that starts in the same way. Text runs up to the next `<`, so that
the first character counts. -/
theorem first_local {c : Char} {piece : Piece} (more : rest ≠ []) (same : other.head? = rest.head?)
    (read : first c (front ++ rest) = (piece, rest)) :
    first c (front ++ other) = (piece, other) := by
  simp only [first] at read
  split at read
  · next comment =>
    split at read
    · next passed =>
      cases read
      rw [← List.cons_append] at comment passed
      rw [first_local_of_comment _ comment passed, ← List.cons_append, before_append_right]
    · exact absurd (Prod.mk.inj read).2.symm more
  · next notComment =>
    split at read
    · next ends =>
      split at read
      · next passed =>
        cases read
        rw [← List.cons_append] at notComment ends passed
        rw [first_local_of_endTag _ notComment ends passed, ← List.cons_append, before_append_right]
      · exact absurd (Prod.mk.inj read).2.symm more
    · next notEnd =>
      split at read
      · next unnamed =>
        simp only [Prod.mk.injEq] at read
        rcases read with ⟨rfl, dropped⟩
        rcases takeWhile_eq_of_dropWhile_eq dropped with ⟨taken, plain⟩
        rw [taken]
        have begins := List.head?_dropWhile_not (· != '<') (front ++ rest)
        rw [dropped] at begins
        cases rest with
        | nil => contradiction
        | cons d rest =>
            have lessThan : d = '<' := by simpa using begins
            subst lessThan
            cases other with
            | nil => contradiction
            | cons e other =>
                cases same
                exact first_local_of_text _ notComment notEnd unnamed plain
      · next named =>
        split at read
        · next tag tail scanned =>
          exact first_local_of_element _ more notComment notEnd named scanned read
        · exact absurd (Prod.mk.inj read).2.symm more

end Piece

/-- What a row of pieces is read from, when a text starts with it. -/
theorem exists_first_of_pieces_eq_cons {text : List Char} {piece : Piece} {pieces' : List Piece}
    (read : pieces text = piece :: pieces') :
    ∃ c front tail, piece.source = c :: front ∧ text = c :: (front ++ tail) ∧
      Piece.first c (front ++ tail) = (piece, tail) ∧ pieces tail = pieces' := by
  cases text with
  | nil => simp at read
  | cons c tail =>
      rw [pieces_cons, List.cons.injEq] at read
      rcases read with ⟨same, others⟩
      have whole := Piece.first_append c tail
      have shorter := Piece.length_first_lt c tail
      rw [same] at whole
      cases source : piece.source with
      | nil =>
          rw [source, List.nil_append] at whole
          rw [whole] at shorter
          exact absurd shorter (Nat.lt_irrefl _)
      | cons d front =>
          rw [source, List.cons_append, List.cons.injEq] at whole
          rcases whole with ⟨rfl, split⟩
          exact ⟨d, front, (Piece.first d tail).2, rfl, by rw [split],
            by rw [split]; exact Prod.ext same rfl, others⟩

/-- Pieces that are followed by others stay what they are, whatever else follows
them that starts in the same way. -/
theorem pieces_local {earlier : List Piece} (more : rest ≠ []) (same : other.head? = rest.head?)
    (read : pieces (earlier.flatMap Piece.source ++ rest) = earlier ++ pieces rest) :
    pieces (earlier.flatMap Piece.source ++ other) = earlier ++ pieces other := by
  induction earlier with
  | nil => rfl
  | cons piece earlier ih =>
      rw [List.flatMap_cons, List.append_assoc, List.cons_append] at read ⊢
      rcases exists_first_of_pieces_eq_cons read with ⟨c, front, tail, source, whole, first, others⟩
      rw [source, List.cons_append, List.cons.injEq] at whole
      have behind := List.append_cancel_left whole.2
      subst behind
      have sameTail : (earlier.flatMap Piece.source ++ other).head? =
          (earlier.flatMap Piece.source ++ rest).head? := by
        rw [List.head?_append, List.head?_append, same]
      rw [source, List.cons_append, pieces_cons,
        Piece.first_local _ (by simp [more]) sameTail first, ih others]

end ScriptView.Component
