import ScriptView.Proofs.Component.Locality.Piece

/-!
# Elements and their bodies

What the pieces of a component tell about an element at their front, and what
happens when an element goes on in another way behind its opening tag: the pieces
in front of it stay the same (`pieces_of_ends`). A raw body may hold any text that
does not hold the element's end tag: the element is then read with the new body,
and all pieces around it are read as before (`pieces_withBody`).
-/

namespace ScriptView.Component

open Text

/-! ## Texts that hold an end tag -/

/-- A text holds the end tag of a name if the start of the tag stands in it
together with the character behind the name. -/
def HoldsEndTag (name text : List Char) : Prop :=
  ∃ front c rest, text = front ++ '<' :: '/' :: name ++ c :: rest ∧ endsName (c :: rest) = true

theorem HoldsEndTag.cons {name text : List Char} (held : HoldsEndTag name text) (c : Char) :
    HoldsEndTag name (c :: text) := by
  rcases held with ⟨front, d, rest, eq, ends⟩
  exact ⟨c :: front, d, rest, by rw [eq]; rfl, ends⟩

/-- An end tag starts with `<` and nowhere else. -/
theorem HoldsEndTag.of_cons {name text : List Char} {c : Char}
    (held : HoldsEndTag name (c :: text)) (differs : c ≠ '<') : HoldsEndTag name text := by
  rcases held with ⟨front, d, rest, eq, ends⟩
  cases front with
  | nil =>
      rw [List.nil_append, List.cons_append, List.cons.injEq] at eq
      exact absurd eq.1 differs
  | cons first front =>
      rw [List.cons_append, List.cons_append, List.cons.injEq] at eq
      exact ⟨front, d, rest, eq.2, ends⟩

/-- A text that starts with an end tag and goes on holds it. -/
theorem holdsEndTag_of_startsEndTag {name text : List Char} (starts : startsEndTag name text = true)
    (longer : name.length + 2 < text.length) : HoldsEndTag name text := by
  rw [startsEndTag, Bool.and_eq_true] at starts
  rcases List.isPrefixOf_iff_prefix.mp starts.1 with ⟨behind, eq⟩
  cases behind with
  | nil =>
      rw [← eq] at longer
      simp at longer
  | cons c rest =>
      refine ⟨[], c, rest, ?_, ?_⟩
      · rw [← eq]
        rfl
      · have dropped : text.drop (name.length + 2) = c :: rest := by
          rw [← eq]
          exact List.drop_left' rfl
        rw [← dropped]
        exact starts.2

/-- Whether the end tag starts at one of the places of a text and the text goes
on behind the name. -/
def holdsEndTag (name : List Char) : List Char → Bool
  | [] => false
  | c :: rest =>
      (startsEndTag name (c :: rest) && decide (name.length + 2 < (c :: rest).length)) ||
        holdsEndTag name rest

theorem holdsEndTag_eq_true {name text : List Char} :
    holdsEndTag name text = true ↔ HoldsEndTag name text := by
  constructor
  · induction text with
    | nil => intro held; contradiction
    | cons c rest ih =>
        intro held
        rw [holdsEndTag, Bool.or_eq_true, Bool.and_eq_true, decide_eq_true_eq] at held
        rcases held with here | later
        · exact holdsEndTag_of_startsEndTag here.1 here.2
        · exact (ih later).cons c
  · intro held
    rcases held with ⟨front, d, rest, eq, ends⟩
    subst eq
    induction front with
    | nil =>
        have dropped : ('<' :: '/' :: name ++ d :: rest).drop (name.length + 2) = d :: rest :=
          List.drop_left' rfl
        have starts : startsEndTag name ('<' :: '/' :: name ++ d :: rest) = true := by
          rw [startsEndTag, dropped, ends, Bool.and_true, List.isPrefixOf_iff_prefix]
          exact List.prefix_append _ _
        simp only [List.nil_append, List.cons_append] at starts ⊢
        rw [holdsEndTag, starts]
        simp
    | cons c front ih =>
        rw [List.cons_append, List.cons_append, holdsEndTag, ih, Bool.or_true]

instance (name text : List Char) : Decidable (HoldsEndTag name text) :=
  decidable_of_iff _ holdsEndTag_eq_true

/-- A word without `<` that reaches into a tail that starts with `<` ends before
the tail and is not followed by it. -/
theorem length_lt_of_startsName {word text rest : List Char} (free : '<' ∉ word)
    (starts : word.isPrefixOf (text ++ '<' :: rest) = true)
    (ends : endsName ((text ++ '<' :: rest).drop word.length) = true) :
    word.length < text.length := by
  induction word generalizing text with
  | nil =>
      cases text with
      | nil => simp [endsName, isMarkupBlank] at ends
      | cons c text => simp
  | cons w word ih =>
      cases text with
      | nil =>
          simp only [List.nil_append, List.isPrefixOf, Bool.and_eq_true, beq_iff_eq] at starts
          exact absurd (starts.1 ▸ List.mem_cons_self) free
      | cons c text =>
          simp only [List.cons_append, List.isPrefixOf, Bool.and_eq_true] at starts
          have shorter := ih (List.not_mem_of_not_mem_cons free) starts.2 ends
          simp only [List.length_cons]
          omega

/-- An end tag that starts in the front of a text and ends its name there is
held by the front. -/
theorem startsEndTag_of_append {name front rest : List Char} (inside : name.length + 2 < front.length)
    (starts : startsEndTag name (front ++ rest) = true) : startsEndTag name front = true := by
  rw [startsEndTag, Bool.and_eq_true, List.isPrefixOf_iff_prefix] at starts ⊢
  rcases starts with ⟨starts, ends⟩
  rw [List.drop_append_of_le_length inside.le] at ends
  refine ⟨List.prefix_of_prefix_length_le starts (List.prefix_append front rest) inside.le, ?_⟩
  cases behind : front.drop (name.length + 2) with
  | nil => rfl
  | cons c others =>
      rw [behind] at ends
      exact ends

/-! ## Raw bodies -/

section Raw

variable {name body : List Char}

/-- A raw body without the end tag runs up to the end tag behind it. -/
theorem rawEnd?_append {start behind : List Char} (free : '<' ∉ name)
    (plain : ¬HoldsEndTag name body) (starts : startsEndTag name start = true)
    (passed : after? ['>'] start = some behind) :
    rawEnd? name (body ++ start) = some ⟨start, behind⟩ := by
  cases start with
  | nil => simp [startsEndTag] at starts
  | cons d start =>
  have less : d = '<' := by
    simp only [startsEndTag, List.isPrefixOf, Bool.and_eq_true, beq_iff_eq] at starts
    exact starts.1.1.symm
  subst less
  induction body with
  | nil =>
      rw [List.nil_append, rawEnd?, if_pos starts, passed]
      rfl
  | cons c body ih =>
      rw [List.cons_append, rawEnd?, if_neg]
      · exact ih fun held => plain (held.cons c)
      · intro startsHere
        have inside : name.length + 2 < (c :: body).length := by
          have word : '<' ∉ '/' :: name := by simp [free]
          rw [startsEndTag, Bool.and_eq_true, List.isPrefixOf, Bool.and_eq_true] at startsHere
          have shorter := length_lt_of_startsName word startsHere.1.2 startsHere.2
          simp only [List.length_cons] at shorter ⊢
          omega
        rw [← List.cons_append] at startsHere
        exact plain (holdsEndTag_of_startsEndTag (startsEndTag_of_append inside startsHere) inside)

/-- A raw body without the end tag that nothing follows has no end. -/
theorem rawEnd?_eq_none (free : '>' ∉ name) (plain : ¬HoldsEndTag name body) :
    rawEnd? name body = none := by
  induction body with
  | nil => rfl
  | cons c body ih =>
      rw [rawEnd?]
      split
      · next starts =>
        cases passed : after? ['>'] (c :: body) with
        | none => rfl
        | some behind =>
            have short : ¬name.length + 2 < (c :: body).length := by
              intro longer
              exact plain (holdsEndTag_of_startsEndTag starts longer)
            rw [startsEndTag, Bool.and_eq_true, List.isPrefixOf_iff_prefix] at starts
            have same := starts.1.eq_of_length_le (Nat.le_of_not_lt short)
            rcases after?_eq_some passed with ⟨front, whole⟩
            have inWord : '>' ∈ '<' :: '/' :: name := by
              rw [same, whole]
              simp
            simp [free] at inWord
      · exact ih fun held => plain (held.cons c)

end Raw

/-! ## Elements -/

/-- The text of an element behind its opening tag. -/
def Element.inner (element : Element) : List Char :=
  element.body ++ element.ending.source

theorem Element.source_eq (element : Element) :
    element.source = element.opening ++ element.inner := by
  rw [Element.source, Element.inner, List.append_assoc]

/-- How an ending belongs to the body in front of it and the text behind it. -/
def Ending.Ends (ending : Ending) (name : List Char) (tag : OpeningTag) (body rest : List Char) :
    Prop :=
  match ending with
  | .selfClosed => tag.selfClosing = true ∧ body = []
  | .endTag text =>
      tag.selfClosing = false ∧ bodyEnd? name (body ++ (text ++ rest)) = some ⟨text ++ rest, rest⟩
  | .missing => tag.selfClosing = false ∧ bodyEnd? name body = none ∧ rest = []

/-- An element is read from a text behind its `<`, and `rest` is left. -/
structure Element.ReadFrom (element : Element) (text rest : List Char) : Prop where
  named : nameAt text ≠ []
  name_eq : element.name = String.ofList (nameAt text)
  scanned : OpeningTag.scan? (text.drop (nameAt text).length) =
    some (element.tag, element.inner ++ rest)
  whole : '<' :: text = element.opening ++ (element.inner ++ rest)
  ends : element.ending.Ends (nameAt text) element.tag element.body rest

namespace Piece

theorem ofElement_eq_element {text name tail rest : List Char} {tag : OpeningTag}
    {element : Element} (inside : tail <:+ text)
    (read : ofElement text name tag tail = (.element element, rest)) :
    element.name = String.ofList name ∧ element.tag = tag ∧ tail = element.inner ++ rest ∧
      text = element.opening ++ (element.inner ++ rest) ∧
      element.ending.Ends name element.tag element.body rest := by
  rw [ofElement] at read
  split at read
  · next closed =>
    cases read
    refine ⟨rfl, rfl, rfl, ?_, closed, rfl⟩
    exact (before_append inside).symm
  · next notClosed =>
    have notClosed : tag.selfClosing = false := by simpa using notClosed
    split at read
    · next start behind found =>
      cases read
      rcases bodyEnd?_suffix found with ⟨startTail, behindTail⟩
      have bodyEq := before_append startTail
      have endEq := before_append behindTail
      refine ⟨rfl, rfl, ?_, ?_, notClosed, ?_⟩
      · simp [Element.inner, Ending.source, endEq, bodyEq]
      · simp [Element.inner, Ending.source, endEq, bodyEq, before_append inside]
      · simp only [endEq, bodyEq]
        exact found
    · next missing =>
      cases read
      refine ⟨rfl, rfl, ?_, ?_, notClosed, missing, rfl⟩
      · simp [Element.inner, Ending.source]
      · simp [Element.inner, Ending.source, before_append inside]

theorem ofElement_of_ends {text name tail rest : List Char} {element : Element}
    (name_eq : element.name = String.ofList name) (whole : text = element.opening ++ tail)
    (inner : tail = element.inner ++ rest)
    (ends : element.ending.Ends name element.tag element.body rest) :
    ofElement text name element.tag tail = (.element element, rest) := by
  rcases element with ⟨elementName, tag, opening, body, ending⟩
  dsimp only [Element.inner] at name_eq whole inner ends ⊢
  subst name_eq whole
  simp only [ofElement, before_append_right]
  cases ending with
  | selfClosed =>
      rcases ends with ⟨closed, rfl⟩
      rw [if_pos closed, inner]
      rfl
  | endTag close =>
      rcases ends with ⟨notClosed, found⟩
      have tailEq : tail = body ++ (close ++ rest) := by
        rw [inner, List.append_assoc]
        rfl
      rw [notClosed, if_neg Bool.false_ne_true, tailEq, found]
      simp only [before_append_right]
  | missing =>
      rcases ends with ⟨notClosed, none, rfl⟩
      have tailEq : tail = body := by
        rw [inner, Ending.source, List.append_nil, List.append_nil]
      rw [notClosed, if_neg Bool.false_ne_true, tailEq, none]

/-- A name starts with a letter, so that what opens an element opens neither a
comment nor an end tag. -/
theorem notComment_of_named {text : List Char} (named : nameAt text ≠ []) :
    ¬['<', '!', '-', '-'].isPrefixOf ('<' :: text) = true ∧
      ¬['<', '/'].isPrefixOf ('<' :: text) = true := by
  cases text with
  | nil => exact absurd rfl named
  | cons c text =>
      have letter : c.isAlpha = true := by
        cases isLetter : c.isAlpha with
        | true => rfl
        | false =>
            rw [nameAt, isLetter] at named
            exact absurd rfl named
      constructor
      · intro comment
        simp only [List.isPrefixOf, Bool.and_eq_true, beq_iff_eq] at comment
        rw [← comment.2.1] at letter
        contradiction
      · intro ends
        simp only [List.isPrefixOf, Bool.and_eq_true, beq_iff_eq] at ends
        rw [← ends.2.1] at letter
        contradiction

/-- What it takes for a piece to be an element. -/
theorem first_eq_element_iff {c : Char} {text rest : List Char} {element : Element} :
    first c text = (.element element, rest) ↔ c = '<' ∧ element.ReadFrom text rest := by
  constructor
  · intro read
    simp only [first] at read
    split at read
    · split at read <;> simp at read
    · split at read
      · split at read <;> simp at read
      · split at read
        · simp at read
        · next named =>
          have less : c = '<' := by
            apply Classical.byContradiction
            intro differs
            rw [openedName_cons, if_neg differs] at named
            exact named rfl
          subst less
          have nameEq : openedName ('<' :: text) = nameAt text := rfl
          rw [nameEq] at named read
          split at read
          · next tag tail scanned =>
            have inside : tail <:+ '<' :: text := (OpeningTag.scan?_suffix scanned).1.trans
              ((List.drop_suffix _ text).trans (List.suffix_cons '<' text))
            rcases ofElement_eq_element inside read with ⟨name_eq, rfl, rfl, whole, ends⟩
            exact ⟨rfl, named, name_eq, scanned, whole, ends⟩
          · simp at read
  · intro read
    rcases read with ⟨rfl, read⟩
    rcases notComment_of_named read.named with ⟨notComment, notEnd⟩
    have nameEq : openedName ('<' :: text) = nameAt text := rfl
    simp only [first, if_neg notComment, if_neg notEnd, nameEq, if_neg read.named, read.scanned]
    exact ofElement_of_ends read.name_eq read.whole rfl read.ends

end Piece

/-! ## Another body -/

/-- An element with another body. -/
def Element.withBody (element : Element) (body : List Char) : Element :=
  { element with body }

/-- An opening tag starts with `<` and ends with `>`. -/
theorem Element.ReadFrom.exists_opening {element : Element} {text rest : List Char}
    (read : element.ReadFrom text rest) :
    ∃ front, element.opening = '<' :: front ∧ text = front ++ (element.inner ++ rest) ∧
      '>' ∈ front := by
  rcases OpeningTag.scan?_closes read.scanned with ⟨attributes, closing⟩
  have split := List.take_append_drop (nameAt text).length text
  rw [closing, List.append_cons, ← List.append_assoc] at split
  refine ⟨_, ?_, split.symm, by simp⟩
  have whole := read.whole
  rw [← split, ← List.cons_append] at whole
  exact (List.append_cancel_right whole).symm

theorem Element.ReadFrom.opening_ne_nil {element : Element} {text rest : List Char}
    (read : element.ReadFrom text rest) : element.opening ≠ [] := by
  rcases read.exists_opening with ⟨front, opening, _, _⟩
  rw [opening]
  exact List.cons_ne_nil '<' front

/-- An ending stays the ending of a raw body without the end tag. -/
theorem Ending.Ends.withBody {ending : Ending} {name body other rest : List Char} {tag : OpeningTag}
    (ends : ending.Ends name tag body rest) (notSelfClosed : ending ≠ .selfClosed)
    (raw : name ≠ templateName) (free : '<' ∉ name ∧ '>' ∉ name)
    (plain : ¬HoldsEndTag name other) : ending.Ends name tag other rest := by
  cases ending with
  | selfClosed => contradiction
  | endTag close =>
      rcases ends with ⟨notClosed, found⟩
      rw [bodyEnd?, if_neg raw] at found
      have close := rawEnd?_eq_some found
      refine ⟨notClosed, ?_⟩
      rw [bodyEnd?, if_neg raw]
      exact rawEnd?_append free.1 plain close.1 close.2
  | missing =>
      rcases ends with ⟨notClosed, _, nothing⟩
      refine ⟨notClosed, ?_, nothing⟩
      rw [bodyEnd?, if_neg raw]
      exact rawEnd?_eq_none free.2 plain

/-- Any character but `<` may be put in front of a raw body. -/
theorem Ending.Ends.cons {ending : Ending} {name body rest : List Char} {tag : OpeningTag} {c : Char}
    (ends : ending.Ends name tag body rest) (notSelfClosed : ending ≠ .selfClosed)
    (raw : name ≠ templateName) (differs : c ≠ '<') : ending.Ends name tag (c :: body) rest := by
  have passed : ∀ text, bodyEnd? name (c :: text) = bodyEnd? name text := by
    intro text
    rw [bodyEnd?, bodyEnd?, if_neg raw, if_neg raw, rawEnd?, if_neg]
    simp [startsEndTag, List.isPrefixOf, Ne.symm differs]
  cases ending with
  | selfClosed => contradiction
  | endTag close =>
      rcases ends with ⟨notClosed, found⟩
      exact ⟨notClosed, (passed _).trans found⟩
  | missing =>
      rcases ends with ⟨notClosed, none, nothing⟩
      exact ⟨notClosed, (passed _).trans none, nothing⟩

/-- Behind its opening tag an element may go on with another body and another text
that fit its ending. -/
theorem Element.ReadFrom.of_ends {element : Element} {text rest body other : List Char}
    (read : element.ReadFrom text rest)
    (ends : element.ending.Ends element.name.toList element.tag body other) :
    ∃ changed, '<' :: changed = (element.withBody body).source ++ other ∧
      (element.withBody body).ReadFrom changed other := by
  rcases read.exists_opening with ⟨front, opening, whole, closes⟩
  have sameName : ∀ behind, nameAt (front ++ behind) = nameAt front := fun behind =>
    nameAt_append_of_mem closes (by decide)
  have named := read.named
  have name_eq := read.name_eq
  have scanned := read.scanned
  rw [whole, sameName] at named name_eq scanned
  rw [name_eq, String.toList_ofList] at ends
  have source : '<' :: (front ++ ((element.withBody body).inner ++ other)) =
      element.opening ++ ((element.withBody body).inner ++ other) := by
    rw [opening, List.cons_append]
  refine ⟨front ++ ((element.withBody body).inner ++ other), ?_, ?_⟩
  · rw [source, Element.source_eq, List.append_assoc]
    rfl
  · constructor
    · rw [sameName]
      exact named
    · rw [sameName]
      exact name_eq
    · rw [sameName]
      have atOnce : OpeningTag.scan? ((front ++ (element.inner ++ rest)).drop
          (nameAt front).length) = some (element.tag, [] ++ (element.inner ++ rest)) := scanned
      exact OpeningTag.scan?_drop_local _ (nameAt_isPrefix front).length_le atOnce
    · exact source
    · rw [sameName]
      exact ends

/-- The name of an element that is read holds neither end of a tag. -/
theorem Element.ReadFrom.plain_name {element : Element} {text rest : List Char}
    (read : element.ReadFrom text rest) :
    '<' ∉ element.name.toList ∧ '>' ∉ element.name.toList := by
  rw [read.name_eq, String.toList_ofList]
  exact ⟨not_mem_nameAt (by decide) text, not_mem_nameAt (by decide) text⟩

/-- The ending of an element that is read fits its body, in terms of its name. -/
theorem Element.ReadFrom.ends_name {element : Element} {text rest : List Char}
    (read : element.ReadFrom text rest) :
    element.ending.Ends element.name.toList element.tag element.body rest := by
  rw [read.name_eq, String.toList_ofList]
  exact read.ends

/-! ## Rows of pieces -/

/-- Pieces are read behind others as they are read alone. -/
theorem pieces_flatMap_source {text : List Char} {earlier later : List Piece}
    (read : pieces text = earlier ++ later) : pieces (later.flatMap Piece.source) = later := by
  induction earlier generalizing text with
  | nil =>
      rw [List.nil_append] at read
      rw [← read, flatMap_source_pieces]
  | cons piece earlier ih =>
      rcases exists_first_of_pieces_eq_cons read with ⟨_, _, tail, _, _, _, others⟩
      exact ih others

theorem pieces_later {text : List Char} {earlier later : List Piece} {piece : Piece}
    (read : pieces text = earlier ++ piece :: later) :
    pieces (later.flatMap Piece.source) = later := by
  rw [List.append_cons] at read
  exact pieces_flatMap_source read

/-- An element among other pieces is read from the text of these. -/
theorem exists_readFrom {source : List Char} {earlier later : List Piece} {element : Element}
    (read : pieces source = earlier ++ .element element :: later) :
    ∃ text, '<' :: text = element.source ++ later.flatMap Piece.source ∧
      element.ReadFrom text (later.flatMap Piece.source) := by
  rcases exists_first_of_pieces_eq_cons (pieces_flatMap_source read) with
    ⟨c, front, tail, sourceEq, whole, first, _⟩
  rcases Piece.first_eq_element_iff.mp first with ⟨rfl, readFrom⟩
  have eq : element.source ++ later.flatMap Piece.source = '<' :: (front ++ tail) := whole
  have behind : later.flatMap Piece.source = tail := by
    have opened : element.source = '<' :: front := sourceEq
    rw [opened, List.cons_append, List.cons.injEq] at eq
    exact List.append_cancel_left eq.2
  rw [behind] at eq ⊢
  exact ⟨front ++ tail, eq.symm, readFrom⟩

/-- Where an element goes on in another way, the pieces in front of it are the same. -/
theorem pieces_of_ends {source body rest : List Char} {earlier later : List Piece}
    {element : Element} (read : pieces source = earlier ++ .element element :: later)
    (ends : element.ending.Ends element.name.toList element.tag body rest) :
    pieces (earlier.flatMap Piece.source ++ ((element.withBody body).source ++ rest)) =
      earlier ++ .element (element.withBody body) :: pieces rest := by
  rcases exists_readFrom read with ⟨text, textEq, readFrom⟩
  rcases readFrom.of_ends ends with ⟨changed, changedEq, changedRead⟩
  have here : pieces ('<' :: changed) = .element (element.withBody body) :: pieces rest := by
    rw [pieces_cons, Piece.first_eq_element_iff.mpr ⟨rfl, changedRead⟩]
  have around : pieces (earlier.flatMap Piece.source ++ '<' :: text) =
      earlier ++ pieces ('<' :: text) := by
    have inOrder := pieces_flatMap_source read
    rw [List.flatMap_cons] at inOrder
    change pieces (element.source ++ _) = _ at inOrder
    rw [textEq, inOrder, ← read, ← flatMap_source_pieces source, read]
    simp [Piece.source]
  have same : ('<' :: changed).head? = ('<' :: text).head? := rfl
  rw [← changedEq, pieces_local _ (List.cons_ne_nil _ _) same around, here]

/-- A component in which one raw body is replaced has the same pieces around it. -/
theorem pieces_withBody {source body : List Char} {earlier later : List Piece} {element : Element}
    (read : pieces source = earlier ++ .element element :: later)
    (notSelfClosed : element.ending ≠ .selfClosed) (raw : element.name ≠ "template")
    (plain : ¬HoldsEndTag element.name.toList body) :
    pieces (earlier.flatMap Piece.source ++
      ((element.withBody body).source ++ later.flatMap Piece.source)) =
      earlier ++ .element (element.withBody body) :: later := by
  rcases exists_readFrom read with ⟨_, _, readFrom⟩
  have rawName : element.name.toList ≠ templateName := by
    intro same
    exact raw (String.toList_inj.mp same)
  rw [pieces_of_ends read (readFrom.ends_name.withBody notSelfClosed rawName
    readFrom.plain_name plain), pieces_later read]

/-- An element that others follow ends with an end tag or in its opening tag. -/
theorem Element.ReadFrom.ending_ne_nil {element : Element} {text rest : List Char}
    (read : element.ReadFrom text rest) (more : rest ≠ [])
    (notSelfClosed : element.ending ≠ .selfClosed) : element.ending.source ≠ [] := by
  have ends := read.ends
  cases ending : element.ending with
  | selfClosed => contradiction
  | missing =>
      rw [ending] at ends
      exact absurd ends.2.2 more
  | endTag close =>
      rw [ending] at ends
      have passed := (bodyEnd?_eq_some ends.2).2
      have shorter := length_lt_of_after? (by simp) passed
      intro nothing
      change close = [] at nothing
      simp [nothing] at shorter

end ScriptView.Component
