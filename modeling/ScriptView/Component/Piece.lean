import ScriptView.Component.Tag

/-!
# The pieces of a component

A component is read as a row of top-level pieces: text, comments, end tags that
close nothing, and elements. Only the outermost elements are recognised. The
body of a `template` runs to its matching end tag, where nested templates and
comments are skipped; every other body is raw text up to the first end tag of
its name. Three kinds of piece stand for a construct that the text leaves
unfinished, and each of them takes all that is left.

Cutting a component into pieces loses nothing: `flatMap_source_pieces`.
-/

namespace ScriptView.Component

open Text

/-- Whether the end tag of an element of this name starts here. -/
def startsEndTag (name text : List Char) : Bool :=
  ('<' :: '/' :: name).isPrefixOf text && endsName (text.drop (name.length + 2))

/-- Whether the opening tag of an element of this name starts here. -/
def startsOpeningTag (name text : List Char) : Bool :=
  ('<' :: name).isPrefixOf text && endsName (text.drop (name.length + 1))

/-- The name of the element whose opening tag starts here, empty if none does. -/
def openedName : List Char → List Char
  | '<' :: rest => nameAt rest
  | _ => []

/-- The end tag that closes a body, given by two tails of the text: the one
that starts with the tag and the one behind its `>`. -/
structure EndTag where
  start : List Char
  behind : List Char

/-- The end of a raw body: its first end tag, which needs a `>`. -/
def rawEnd? (name : List Char) : List Char → Option EndTag
  | [] => none
  | c :: rest =>
      if startsEndTag name (c :: rest) then
        (after? ['>'] (c :: rest)).map fun behind => ⟨c :: rest, behind⟩
      else
        rawEnd? name rest

/-- The name of the only element whose body is not raw text. -/
def templateName : List Char := ['t', 'e', 'm', 'p', 'l', 'a', 't', 'e']

/-- The end of a template's body inside `depth` further templates. A comment or
a tag that does not end leaves the body without an end. -/
def templateEnd? (depth : Nat) (text : List Char) : Option EndTag :=
  match text with
  | [] => none
  | c :: rest =>
      if ['<', '!', '-', '-'].isPrefixOf (c :: rest) then
        match passed : after? ['-', '-', '>'] (c :: rest) with
        | none => none
        | some behind =>
            have : behind.length < rest.length + 1 := length_lt_of_after? (by simp) passed
            templateEnd? depth behind
      else if startsEndTag templateName (c :: rest) then
        match passed : after? ['>'] (c :: rest) with
        | none => none
        | some behind =>
            have : behind.length < rest.length + 1 := length_lt_of_after? (by simp) passed
            match depth with
            | 0 => some ⟨c :: rest, behind⟩
            | depth + 1 => templateEnd? depth behind
      else if startsOpeningTag templateName (c :: rest) then
        match scanned : OpeningTag.scan? (rest.drop templateName.length) with
        | none => none
        | some (tag, behind) =>
            have : behind.length < rest.length + 1 := by
              have := (OpeningTag.scan?_suffix scanned).2
              simp only [List.length_drop] at this
              omega
            templateEnd? (if tag.selfClosing then depth else depth + 1) behind
      else
        templateEnd? depth rest
termination_by text.length

/-- The end of the body of an element of this name. -/
def bodyEnd? (name text : List Char) : Option EndTag :=
  if name = templateName then templateEnd? 0 text else rawEnd? name text

/-- How an element ends. An element without an end tag takes all that is left. -/
inductive Ending where
  | selfClosed
  | endTag (text : List Char)
  | missing
  deriving DecidableEq, Repr

/-- The text of an ending behind the body. -/
def Ending.source : Ending → List Char
  | .endTag text => text
  | .selfClosed | .missing => []

/-- A top-level element: its opening tag as written, its body and its end. -/
structure Element where
  name : String
  tag : OpeningTag
  opening : List Char
  body : List Char
  ending : Ending
  deriving DecidableEq, Repr

/-- The text of an element. -/
def Element.source (element : Element) : List Char :=
  element.opening ++ element.body ++ element.ending.source

/-- A top-level piece of a component. -/
inductive Piece where
  | text (source : List Char)
  | comment (source : List Char)
  | endTag (source : List Char)
  | element (inner : Element)
  | openComment (source : List Char)
  | openEndTag (source : List Char)
  | openTag (name : String) (source : List Char)
  deriving DecidableEq, Repr

namespace Piece

/-- The text of a piece. -/
def source : Piece → List Char
  | .text source | .comment source | .endTag source => source
  | .openComment source | .openEndTag source | .openTag _ source => source
  | .element inner => inner.source

/-- The element that starts a text, given its name and what is read behind the
name, with the tail behind the element. -/
def ofElement (text name : List Char) (tag : OpeningTag) (rest : List Char) :
    Piece × List Char :=
  let build (body : List Char) (ending : Ending) : Piece :=
    .element ⟨String.ofList name, tag, before text rest, body, ending⟩
  if tag.selfClosing then (build [] .selfClosed, rest)
  else
    match bodyEnd? name rest with
    | some ⟨start, behind⟩ =>
        (build (before rest start) (.endTag (before start behind)), behind)
    | none => (build rest .missing, [])

/-- The piece that starts a text with at least one character, and the tail
behind it. A `<` that opens nothing is text. -/
def first (c : Char) (tail : List Char) : Piece × List Char :=
  let text := c :: tail
  if ['<', '!', '-', '-'].isPrefixOf text then
    match after? ['-', '-', '>'] text with
    | some rest => (.comment (before text rest), rest)
    | none => (.openComment text, [])
  else if ['<', '/'].isPrefixOf text then
    match after? ['>'] text with
    | some rest => (.endTag (before text rest), rest)
    | none => (.openEndTag text, [])
  else
    let name := openedName text
    if name = [] then
      (.text (c :: tail.takeWhile (· != '<')), tail.dropWhile (· != '<'))
    else
      match OpeningTag.scan? (tail.drop name.length) with
      | some (tag, rest) => ofElement text name tag rest
      | none => (.openTag (String.ofList name) text, [])

end Piece

section Tails

theorem rawEnd?_suffix {name text : List Char} {found : EndTag}
    (read : rawEnd? name text = some found) :
    found.start <:+ text ∧ found.behind <:+ found.start := by
  induction text with
  | nil => simp [rawEnd?] at read
  | cons c rest ih =>
    rw [rawEnd?] at read
    split at read
    · obtain ⟨behind, passed, rfl⟩ := Option.map_eq_some_iff.mp read
      exact ⟨List.suffix_refl _, suffix_of_after? passed⟩
    · exact ⟨(ih read).1.trans (List.suffix_cons _ _), (ih read).2⟩

theorem templateEnd?_suffix {depth : Nat} {text : List Char} {found : EndTag}
    (read : templateEnd? depth text = some found) :
    found.start <:+ text ∧ found.behind <:+ found.start := by
  fun_induction templateEnd? depth text with
  | case1 | case2 | case4 | case7 => simp at read
  | case3 _ _ _ _ _ passed _ ih =>
    exact ⟨(ih read).1.trans (suffix_of_after? passed), (ih read).2⟩
  | case5 _ _ _ _ _ passed =>
    cases read
    exact ⟨List.suffix_refl _, suffix_of_after? passed⟩
  | case6 _ _ _ _ _ passed _ _ ih =>
    exact ⟨(ih read).1.trans (suffix_of_after? passed), (ih read).2⟩
  | case8 _ c rest _ _ _ _ _ scanned _ ih =>
    have toText := (OpeningTag.scan?_suffix scanned).1.trans
      ((List.drop_suffix _ rest).trans (List.suffix_cons c rest))
    exact ⟨(ih read).1.trans toText, (ih read).2⟩
  | case9 _ _ _ _ _ _ ih => exact ⟨(ih read).1.trans (List.suffix_cons _ _), (ih read).2⟩

/-- A body ends at a tail of the text, and its end tag is in front of another. -/
theorem bodyEnd?_suffix {name text : List Char} {found : EndTag}
    (read : bodyEnd? name text = some found) :
    found.start <:+ text ∧ found.behind <:+ found.start := by
  rw [bodyEnd?] at read
  split at read
  · exact templateEnd?_suffix read
  · exact rawEnd?_suffix read

theorem Piece.ofElement_append {text name rest : List Char} {tag : OpeningTag}
    (tail : rest <:+ text) :
    (ofElement text name tag rest).1.source ++ (ofElement text name tag rest).2 = text := by
  rw [ofElement]
  split
  · simp [source, Element.source, Ending.source, before_append tail]
  · split
    · next start behind read =>
      obtain ⟨startTail, behindTail⟩ := bodyEnd?_suffix read
      simp only [source, Element.source, Ending.source, List.append_assoc,
        before_append behindTail, before_append startTail, before_append tail]
    · simp [source, Element.source, Ending.source, before_append tail]

theorem Piece.ofElement_length {text name rest : List Char} {tag : OpeningTag} :
    (ofElement text name tag rest).2.length ≤ rest.length := by
  rw [ofElement]
  split
  · exact Nat.le_refl _
  · split
    · next start behind read =>
      obtain ⟨startTail, behindTail⟩ := bodyEnd?_suffix read
      exact (behindTail.trans startTail).length_le
    · simp

/-- A piece and the tail behind it make up the text. -/
theorem Piece.first_append (c : Char) (tail : List Char) :
    (first c tail).1.source ++ (first c tail).2 = c :: tail := by
  simp only [first]
  split
  · split
    · next passed => simp [source, before_append (suffix_of_after? passed)]
    · simp [source]
  · split
    · split
      · next passed => simp [source, before_append (suffix_of_after? passed)]
      · simp [source]
    · split
      · simp [source]
      · split
        · next scanned =>
          exact ofElement_append ((OpeningTag.scan?_suffix scanned).1.trans
            ((List.drop_suffix _ tail).trans (List.suffix_cons c tail)))
        · simp [source]

/-- A piece has at least one character. -/
theorem Piece.length_first_lt (c : Char) (tail : List Char) :
    (first c tail).2.length < (c :: tail).length := by
  simp only [first]
  split
  · split
    · next passed => exact length_lt_of_after? (by simp) passed
    · simp
  · split
    · split
      · next passed => exact length_lt_of_after? (by simp) passed
      · simp
    · split
      · have := (List.dropWhile_suffix (· != '<') (l := tail)).length_le
        simp only [List.length_cons]
        omega
      · split
        · next scanned =>
          have shorter := (OpeningTag.scan?_suffix scanned).2
          simp only [List.length_drop] at shorter
          refine Nat.lt_of_le_of_lt ofElement_length ?_
          simp only [List.length_cons]
          omega
        · simp

end Tails

/-- The pieces of a component, in order. -/
def pieces (text : List Char) : List Piece :=
  match text with
  | [] => []
  | c :: tail => (Piece.first c tail).1 :: pieces (Piece.first c tail).2
termination_by text.length
decreasing_by exact Piece.length_first_lt c tail

@[simp] theorem pieces_nil : pieces [] = [] := by rw [pieces]

theorem pieces_cons (c : Char) (tail : List Char) :
    pieces (c :: tail) = (Piece.first c tail).1 :: pieces (Piece.first c tail).2 := by
  rw [pieces]

/-- The pieces of a component put one behind the other are its text. -/
theorem flatMap_source_pieces (text : List Char) :
    (pieces text).flatMap Piece.source = text := by
  fun_induction pieces text with
  | case1 => rfl
  | case2 c tail ih => rw [List.flatMap_cons, ih, Piece.first_append]

end ScriptView.Component
