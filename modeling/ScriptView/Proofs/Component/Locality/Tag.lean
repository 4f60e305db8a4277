import Mathlib.Data.List.TakeWhile
import ScriptView.Component.Piece

/-!
# Tags are read locally

What is read at the front of a component does not depend on the text behind its
end. Every reading function consumes some front of a text and returns the tail
behind it; each lemma here says that another tail in its place is returned in
the same way. The tags of markup end with `>`, and this character ends every
look-ahead: a name, a word of markup or a run of blanks never reaches past it.
-/

namespace ScriptView.Component

open Text

variable {front rest : List Char} (other : List Char)

/-! ## Look-ahead up to a fixed character -/

section Runs

variable {p : Char → Bool} {stop : Char} {word : List Char}

/-- A run of characters ends inside a text that holds a character outside it. -/
theorem dropWhile_append_of_mem (member : stop ∈ front) (stops : p stop = false) :
    (front ++ rest).dropWhile p = front.dropWhile p ++ rest := by
  induction front with
  | nil => contradiction
  | cons c front ih =>
      cases inRun : p c with
      | false => simp [inRun]
      | true =>
          have differs : stop ≠ c := by
            intro same
            rw [same, inRun] at stops
            contradiction
          simpa [inRun] using ih (List.mem_of_ne_of_mem differs member)

theorem takeWhile_append_of_mem (member : stop ∈ front) (stops : p stop = false) :
    (front ++ rest).takeWhile p = front.takeWhile p := by
  have dropped : (front ++ rest).dropWhile p = front.dropWhile p ++ rest :=
    dropWhile_append_of_mem member stops
  have split := List.takeWhile_append_dropWhile (p := p) (l := front ++ rest)
  rw [dropped, ← List.append_assoc] at split
  have whole : (front ++ rest).takeWhile p ++ front.dropWhile p =
      front.takeWhile p ++ front.dropWhile p := by
    rw [List.takeWhile_append_dropWhile]
    exact List.append_cancel_right split
  exact List.append_cancel_right whole

/-- A character outside a run stays when the run is dropped. -/
theorem mem_dropWhile_of_mem (member : stop ∈ front) (stops : p stop = false) :
    stop ∈ front.dropWhile p := by
  rw [← List.takeWhile_append_dropWhile (p := p) (l := front)] at member
  rcases List.mem_append.mp member with run | tail
  · rw [List.mem_takeWhile_imp run] at stops
    contradiction
  · exact tail

/-- A word is looked for in front of any character that it does not hold. -/
theorem isPrefixOf_append_of_mem (member : stop ∈ front) (free : stop ∉ word) :
    word.isPrefixOf (front ++ rest) = word.isPrefixOf front := by
  induction word generalizing front with
  | nil => simp
  | cons w word ih =>
      cases front with
      | nil => contradiction
      | cons c front =>
          cases same : w == c with
          | false => simp [List.isPrefixOf, same]
          | true =>
              have differs : stop ≠ c := by
                intro here
                rw [here, ← beq_iff_eq.mp same] at free
                exact free List.mem_cons_self
              have later := List.mem_of_ne_of_mem differs member
              simpa [List.isPrefixOf, same] using ih later (List.not_mem_of_not_mem_cons free)

/-- So is a word with the end of a name behind it. -/
theorem startsName_append_of_mem (member : stop ∈ front) (free : stop ∉ word) :
    (word.isPrefixOf (front ++ rest) && endsName ((front ++ rest).drop word.length)) =
      (word.isPrefixOf (front ++ other) && endsName ((front ++ other).drop word.length)) := by
  induction word generalizing front with
  | nil =>
      cases front with
      | nil => contradiction
      | cons c front => rfl
  | cons w word ih =>
      cases front with
      | nil => contradiction
      | cons c front =>
          cases same : w == c with
          | false => simp [List.isPrefixOf, same]
          | true =>
              have differs : stop ≠ c := by
                intro here
                rw [here, ← beq_iff_eq.mp same] at free
                exact free List.mem_cons_self
              have later := List.mem_of_ne_of_mem differs member
              simpa [List.isPrefixOf, same] using ih later (List.not_mem_of_not_mem_cons free)

end Runs

/-- The first occurrence of a word stays where it is. -/
theorem after?_local {word : List Char} (nonempty : word ≠ [])
    (found : after? word (front ++ rest) = some rest) :
    after? word (front ++ other) = some other := by
  induction front with
  | nil =>
      have shorter := length_lt_of_after? nonempty found
      simp at shorter
  | cons c front ih =>
      rw [List.cons_append, after?] at found ⊢
      split at found
      · next starts =>
          rw [Option.some.injEq, ← List.cons_append] at found
          have whole := List.prefix_iff_eq_append.mp (List.isPrefixOf_iff_prefix.mp starts)
          rw [← List.cons_append, found] at whole
          have same : word = c :: front := List.append_cancel_right whole
          subst same
          simp
      · next differs =>
          rcases after?_eq_some found with ⟨passed, whole⟩
          have tail : front = passed ++ word := List.append_cancel_right whole
          have fits : word <+: c :: (front ++ other) → word <+: c :: front := by
            intro starts
            apply List.prefix_of_prefix_length_le starts (List.prefix_append (c :: front) other)
            simp [tail]
            omega
          rw [if_neg]
          · exact ih found
          · intro starts
            apply differs
            apply List.isPrefixOf_iff_prefix.mpr
            exact (fits (List.isPrefixOf_iff_prefix.mp starts)).trans
              (List.prefix_append (c :: front) rest)

/-! ## Opening tags -/

theorem quotedValue?_local {quote : Char} {tail : List Char} {value : String}
    (read : quotedValue? quote (front ++ rest) = some (value, tail ++ rest)) :
    quotedValue? quote (front ++ other) = some (value, tail ++ other) := by
  -- A quote behind the front would leave less than all of `rest` over.
  have closed : quote ∈ front := by
    apply Classical.byContradiction
    intro absent
    have passed := forall_bne_of_not_mem absent
    rw [quotedValue?, List.dropWhile_append_of_pos passed] at read
    have shorter := (List.dropWhile_suffix (· != quote) (l := rest)).length_le
    split at read
    · simp at read
    · next found =>
      cases read
      rw [found] at shorter
      simp only [List.length_cons, List.length_append] at shorter
      omega
  have stops : (quote != quote) = false := by simp
  rw [quotedValue?, dropWhile_append_of_mem (p := (· != quote)) closed stops,
    takeWhile_append_of_mem (p := (· != quote)) closed stops] at read ⊢
  have member := mem_dropWhile_of_mem (p := (· != quote)) closed stops
  cases dropped : front.dropWhile (· != quote) with
  | nil =>
      rw [dropped] at member
      contradiction
  | cons c behind =>
      simp only [dropped, List.cons_append, Option.some.injEq, Prod.mk.injEq] at read ⊢
      exact ⟨read.1, by rw [List.append_cancel_right read.2]⟩

/-- Which syntax a value has is told by its first character. -/
theorem value?_cons (c : Char) (text : List Char) :
    value? (c :: text) =
      if c = '"' then quotedValue? '"' text
      else if c = '\'' then quotedValue? '\'' text
      else some (String.ofList ((c :: text).takeWhile isBareValueChar),
        (c :: text).dropWhile isBareValueChar) := by
  rw [value?.eq_def]
  split
  · contradiction
  · next same =>
    cases same
    rfl
  · next same =>
    cases same
    rfl
  · next notDouble notSingle =>
    have double : c ≠ '"' := fun same => notDouble text (by rw [same])
    have single : c ≠ '\'' := fun same => notSingle text (by rw [same])
    simp [double, single]

theorem value?_local {tail : List Char} {value : String} (closes : '>' ∈ front)
    (read : value? (front ++ rest) = some (value, tail ++ rest)) :
    value? (front ++ other) = some (value, tail ++ other) := by
  have stops : isBareValueChar '>' = false := by decide
  cases front with
  | nil => contradiction
  | cons c front =>
      rw [List.cons_append, value?_cons, ← List.cons_append] at read ⊢
      split at read
      · next quote =>
        rw [if_pos quote]
        exact quotedValue?_local _ read
      · next notDouble =>
        rw [if_neg notDouble]
        split at read
        · next quote =>
          rw [if_pos quote]
          exact quotedValue?_local _ read
        · next notSingle =>
          rw [if_neg notSingle]
          rw [dropWhile_append_of_mem closes stops, takeWhile_append_of_mem closes stops,
            Option.some.injEq, Prod.mk.injEq] at read ⊢
          exact ⟨read.1, by rw [List.append_cancel_right read.2]⟩

theorem readAttribute?_local {tail : List Char} {found : Attribute} (closes : '>' ∈ front)
    (read : readAttribute? (front ++ rest) = some (found, tail ++ rest)) :
    readAttribute? (front ++ other) = some (found, tail ++ other) := by
  have nameStops : isAttributeNameChar '>' = false := by decide
  have blankStops : isMarkupBlank '>' = false := by decide
  have inTail := mem_dropWhile_of_mem closes nameStops
  have inLast := mem_dropWhile_of_mem inTail blankStops
  simp only [readAttribute?, dropWhile_append_of_mem closes nameStops,
    takeWhile_append_of_mem closes nameStops, dropWhile_append_of_mem inTail blankStops] at read ⊢
  cases last : (front.dropWhile isAttributeNameChar).dropWhile isMarkupBlank with
  | nil =>
      rw [last] at inLast
      contradiction
  | cons c behind =>
      rw [last, List.cons_append] at read
      rw [List.cons_append]
      split at read
      · next same =>
        cases same
        have inBehind : '>' ∈ behind := by
          rw [last] at inLast
          exact List.mem_of_ne_of_mem (by decide) inLast
        simp only [dropWhile_append_of_mem inBehind blankStops] at read ⊢
        rcases Option.map_eq_some_iff.mp read with ⟨⟨value, after⟩, readValue, same⟩
        cases same
        have moved := value?_local other (mem_dropWhile_of_mem inBehind blankStops)
          readValue
        rw [moved]
        rfl
      · next notEquals =>
        split
        · next same =>
          cases same
          exact absurd rfl (notEquals _)
        · rw [Option.some.injEq, Prod.mk.injEq] at read ⊢
          exact ⟨read.1, by rw [List.append_cancel_right read.2]⟩

namespace OpeningTag

/-- How a tag ends. -/
def close (tag : OpeningTag) : List Char :=
  if tag.selfClosing then ['/', '>'] else ['>']

theorem exists_close_eq (tag : OpeningTag) : ∃ front, tag.close = front ++ ['>'] := by
  rw [close]
  split
  · exact ⟨['/'], rfl⟩
  · exact ⟨[], rfl⟩

/-- The end of a tag is read as a tag without attributes. -/
theorem scan?_close (selfClosing : Bool) (rest : List Char) :
    scan? (close ⟨[], selfClosing⟩ ++ rest) = some (⟨[], selfClosing⟩, rest) := by
  cases selfClosing with
  | false =>
      change scan? ('>' :: rest) = _
      rw [scan?.eq_def]
      rfl
  | true =>
      change scan? ('/' :: '>' :: rest) = _
      rw [scan?.eq_def]
      rfl

/-- A tag is read up to its end. -/
theorem scan?_eq_some {text : List Char} {tag : OpeningTag}
    (scanned : scan? text = some (tag, rest)) : ∃ inner, text = inner ++ tag.close ++ rest := by
  fun_induction scan? text generalizing tag rest with
  | case1 => contradiction
  | case2 =>
      cases scanned
      exact ⟨[], rfl⟩
  | case3 =>
      cases scanned
      exact ⟨[], rfl⟩
  | case4 => contradiction
  | case5 c tail _ _ nameChar first behind read _ ih =>
      rcases Option.map_eq_some_iff.mp scanned with ⟨⟨last, after⟩, scannedLast, same⟩
      cases same
      rcases ih scannedLast with ⟨inner, whole⟩
      rcases (readAttribute?_suffix read).trans (List.dropWhile_suffix _) with ⟨passed, eq⟩
      refine ⟨passed ++ inner, ?_⟩
      rw [← eq, whole, List.append_assoc, List.append_assoc, List.append_assoc]
      rfl
  | case6 c tail _ _ _ ih =>
      rcases ih scanned with ⟨inner, whole⟩
      exact ⟨c :: inner, by rw [whole, List.cons_append, List.cons_append]⟩

/-- An opening tag ends with `>`. -/
theorem scan?_closes {text : List Char} {tag : OpeningTag}
    (scanned : scan? text = some (tag, rest)) : ∃ inner, text = inner ++ '>' :: rest := by
  rcases scan?_eq_some scanned with ⟨inner, whole⟩
  rcases tag.exists_close_eq with ⟨front, close⟩
  exact ⟨inner ++ front, by rw [whole, close]; simp⟩

/-- A character that separates attributes is passed. -/
theorem scan?_of_separator {c : Char} {text : List Char} (notEnd : c ≠ '>')
    (notSelfClosing : c = '/' → text.head? ≠ some '>') (separates : isAttributeNameChar c = false) :
    scan? (c :: text) = scan? text := by
  rw [scan?.eq_def]
  split
  · contradiction
  · next same =>
    cases same
    contradiction
  · next same =>
    cases same
    exact absurd rfl (notSelfClosing rfl)
  · next same =>
    cases same
    simp [separates]

/-- A character of a name starts an attribute. -/
theorem scan?_of_nameChar {c : Char} {text tail : List Char} {first : Attribute}
    (nameChar : isAttributeNameChar c = true) (read : readAttribute? (c :: text) = some (first, tail)) :
    scan? (c :: text) = (scan? tail).map fun (tag, behind) => (tag.withAttribute first, behind) := by
  rw [scan?.eq_def]
  split
  · contradiction
  · next same =>
    cases same
    contradiction
  · next same =>
    cases same
    contradiction
  · next same =>
    cases same
    rw [dif_pos nameChar]
    split
    · next none =>
      rw [read] at none
      contradiction
    · next found =>
      rw [read] at found
      cases found
      rfl

theorem scan?_local {tag : OpeningTag} (scanned : scan? (front ++ rest) = some (tag, rest)) :
    scan? (front ++ other) = some (tag, other) := by
  generalize whole : front ++ rest = text at scanned
  fun_induction scan? text generalizing front tag with
  | case1 => contradiction
  | case2 =>
      cases scanned
      have same : front = ['>'] := List.append_cancel_right whole
      rw [same]
      exact scan?_close false other
  | case3 =>
      cases scanned
      have same : front = ['/', '>'] := List.append_cancel_right whole
      rw [same]
      exact scan?_close true other
  | case4 => contradiction
  | case5 c tail _ _ nameChar first behind read _ ih =>
      rcases Option.map_eq_some_iff.mp scanned with ⟨⟨last, after⟩, scannedLast, same⟩
      cases same
      -- The rest of the tag holds its `>`, so that it ends each look-ahead.
      rcases scan?_closes scannedLast with ⟨inner, closing⟩
      rw [List.append_cons] at closing
      rcases (readAttribute?_suffix read).trans (List.dropWhile_suffix _) with ⟨passed, eq⟩
      have frontEq : front = passed ++ (inner ++ ['>']) := by
        rw [← whole, closing, ← List.append_assoc] at eq
        exact (List.append_cancel_right eq).symm
      have closes : '>' ∈ front := by simp [frontEq]
      rw [← whole, closing] at read
      have moved := readAttribute?_local other closes read
      cases front with
      | nil => contradiction
      | cons d front =>
          rw [List.cons_append, List.cons.injEq] at whole
          rcases whole with ⟨rfl, _⟩
          rw [List.cons_append] at moved ⊢
          rw [scan?_of_nameChar nameChar moved, ih closing.symm scannedLast]
          rfl
  | case6 c tail notEnd notSelfClosing nameChar ih =>
      have shorter := (scan?_suffix scanned).2
      cases front with
      | nil =>
          rw [List.nil_append] at whole
          rw [whole, List.length_cons] at shorter
          omega
      | cons d front =>
          rw [List.cons_append, List.cons.injEq] at whole
          rcases whole with ⟨rfl, rfl⟩
          have separates : isAttributeNameChar d = false := by simpa using nameChar
          rw [List.cons_append, scan?_of_separator notEnd _ separates]
          · exact ih rfl scanned
          · intro slash
            cases front with
            | nil => simp at shorter
            | cons e front =>
                intro starts
                cases starts
                exact notSelfClosing _ slash rfl

/-- So it is when the scan starts inside the front and ends inside it, too. -/
theorem scan?_drop_local {count : Nat} {mid : List Char} {tag : OpeningTag}
    (fits : count ≤ front.length)
    (scanned : scan? ((front ++ rest).drop count) = some (tag, mid ++ rest)) :
    scan? ((front ++ other).drop count) = some (tag, mid ++ other) := by
  rw [List.drop_append_of_le_length fits] at scanned ⊢
  rcases (scan?_suffix scanned).1 with ⟨inner, whole⟩
  rw [← List.append_assoc] at whole
  have split := List.append_cancel_right whole
  rw [← split, List.append_assoc] at scanned ⊢
  exact scan?_local _ scanned

end OpeningTag

end ScriptView.Component
