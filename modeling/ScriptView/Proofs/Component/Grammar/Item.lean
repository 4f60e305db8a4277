import ScriptView.Proofs.Component.Blocks
import ScriptView.Proofs.Component.Grammar.Body

/-!
# Components as they are written

A component is written as a row of items: text, comments, end tags that close
nothing, and elements. Its outline is the one that the items call for
(`outline_flatMap_source`): a block for each element that is not empty, with
the body as its content, except that a second block of a kind that a component
has once is a problem, and there is no other problem.
-/

namespace ScriptView.Component

open Text

/-! ## Items -/

/-- What follows an opening tag: nothing if it closes itself, else a body and an
end tag. -/
inductive WrittenContent (name : TagName) (tag : WrittenTag) where
  | selfClosed (closed : tag.selfClosing = true)
  | enclosed (opened : tag.selfClosing = false) (body : List Char)
      (enclosed : Enclosed name.text body) (gap : Blanks)

/-- An element. -/
structure WrittenElement where
  name : TagName
  tag : WrittenTag
  content : WrittenContent name tag

namespace WrittenElement

/-- The text of an element's opening tag. -/
def opening (element : WrittenElement) : List Char :=
  '<' :: element.name.text ++ element.tag.source

/-- The body of an element. -/
def body (element : WrittenElement) : List Char :=
  match element.content with
  | .selfClosed _ => []
  | .enclosed _ body _ _ => body

/-- How an element ends. -/
def ending (element : WrittenElement) : Ending :=
  match element.content with
  | .selfClosed _ => .selfClosed
  | .enclosed _ _ _ gap => .endTag (endTag element.name.text gap)

/-- The text of an element. -/
def source (element : WrittenElement) : List Char :=
  element.opening ++ element.body ++ element.ending.source

/-- The block that an element calls for, if its tag starts at a position. -/
def block (element : WrittenElement) (position : Position) : Block where
  kind := .ofElement (String.ofList element.name.text) element.tag.meaning.attributes
  attributes := element.tag.meaning.attributes
  start := position.advance element.opening
  content := element.body
  ending := element.ending

end WrittenElement

/-- A part of a component. -/
inductive Item where
  | text (source : List Char) (free : '<' ∉ source)
  | comment (source : List Char) (comment : IsComment source)
  | endTag (inner : List Char) (free : '>' ∉ inner)
  | element (written : WrittenElement)

/-- The text of an item. -/
def Item.source : Item → List Char
  | .text source _ => source
  | .comment source _ => source
  | .endTag inner _ => '<' :: '/' :: inner ++ ['>']
  | .element written => written.source

/-! ## What items call for -/

/-- A block and the position of the tag that calls for it. -/
structure Called where
  position : Position
  block : Block

/-- The block that an item at a position calls for. An empty element calls for
none. -/
def Item.called (position : Position) : Item → List Called
  | .text _ _ | .comment _ _ | .endTag _ _ => []
  | .element written =>
      if (written.block position).isVoid then [] else [⟨position, written.block position⟩]

/-- The blocks that a row of items calls for, the first of which is at a
position. -/
def calledFrom (position : Position) : List Item → List Called
  | [] => []
  | item :: items => item.called position ++ calledFrom (position.advance item.source) items

/-- Every entry of a row with those in front of it, behind some earlier ones. -/
def withEarlier {α : Type} (earlier : List α) : List α → List (List α × α)
  | [] => []
  | entry :: later => (earlier, entry) :: withEarlier (earlier ++ [entry]) later

/-- The name under which a block is a second one behind others: they hold one of
its kind, and a component has one of them only. -/
def Called.secondName? (earlier : List Called) (called : Called) : Option String :=
  if earlier.any (·.block.kind == called.block.kind) then called.block.kind.singleName? else none

/-- The outline of a row of called blocks, each with those in front of it: the
blocks without the second ones, which are the problems. -/
def Outline.ofCalled (row : List (List Called × Called)) : Outline where
  blocks := (row.filter fun (earlier, called) => (called.secondName? earlier).isNone).map
    fun (_, called) => called.block
  problems := row.filterMap fun (earlier, called) =>
    (called.secondName? earlier).map fun name => ⟨.duplicateBlock name, called.position⟩

/-- The outline that items call for. -/
def calledOutline (items : List Item) : Outline :=
  .ofCalled (withEarlier [] (calledFrom ⟨[]⟩ items))

/-! ## Reading items -/

namespace Piece

/-- What starts with another character than `<` is text up to the next `<`. -/
theorem first_of_ne {c : Char} (differs : c ≠ '<') (tail : List Char) :
    first c tail = (.text (c :: tail.takeWhile (· != '<')), tail.dropWhile (· != '<')) := by
  have notComment : ¬['<', '!', '-', '-'].isPrefixOf (c :: tail) = true := by
    simp [List.isPrefixOf, Ne.symm differs]
  have notEnd : ¬['<', '/'].isPrefixOf (c :: tail) = true := by
    simp [List.isPrefixOf, Ne.symm differs]
  simp only [first, if_neg notComment, if_neg notEnd, openedName_cons, if_neg differs, if_true]

theorem first_of_isComment {source : List Char} (comment : IsComment source) (rest : List Char) :
    ∃ tail, source ++ rest = '<' :: tail ∧ first '<' tail = (.comment source, rest) := by
  have starts := comment.startsComment rest
  have passed := comment.after?_append rest
  rcases comment.opens with ⟨behind, rfl⟩
  exact ⟨_, rfl, first_local_of_comment rest starts passed⟩

theorem first_of_endTag {inner : List Char} (free : '>' ∉ inner) (rest : List Char) :
    first '<' ('/' :: inner ++ ['>'] ++ rest) = (.endTag ('<' :: '/' :: inner ++ ['>']), rest) := by
  have none : '>' ∉ '<' :: '/' :: inner := by simp [free]
  have passed := after?_of_not_mem none rest
  rw [List.append_cons] at passed
  apply first_local_of_endTag rest _ _ passed
  · simp [List.isPrefixOf]
  · simp [List.isPrefixOf]

end Piece

namespace WrittenElement

variable (element : WrittenElement)

/-- What is read of an element. -/
def meaning : Element where
  name := String.ofList element.name.text
  tag := element.tag.meaning
  opening := element.opening
  body := element.body
  ending := element.ending

/-- An element is read as it is written. -/
theorem readFrom (rest : List Char) :
    element.meaning.ReadFrom (element.name.text ++ (element.tag.source ++
      (element.meaning.inner ++ rest))) rest := by
  have read : nameAt (element.name.text ++ (element.tag.source ++
      (element.meaning.inner ++ rest))) = element.name.text :=
    element.name.nameAt_append (element.tag.endsName_source _)
  constructor
  · rw [read]
    exact List.cons_ne_nil _ _
  · rw [read]
    rfl
  · rw [read, List.drop_left' rfl]
    exact element.tag.scan?_source _
  · change _ = element.opening ++ _
    rw [opening, List.append_assoc]
    rfl
  · rw [read]
    rcases element with ⟨name, tag, content⟩
    cases content with
    | selfClosed closed => exact ⟨closed, rfl⟩
    | enclosed opened body enclosed gap => exact ⟨opened, bodyEnd?_of_enclosed enclosed gap rest⟩

theorem first_source (rest : List Char) :
    ∃ tail, element.source ++ rest = '<' :: tail ∧
      Piece.first '<' tail = (.element element.meaning, rest) := by
  refine ⟨_, ?_, Piece.first_eq_element_iff.mpr ⟨rfl, element.readFrom rest⟩⟩
  simp [source, opening, meaning, Element.inner]

/-- An element that is written has an end. -/
theorem ending_ne_missing : element.ending ≠ .missing := by
  rw [ending]
  split <;> simp

end WrittenElement

namespace Outline

variable (outline : Outline) (position : Position)

/-- Add what a text at a position tells. -/
def addText (text : List Char) : Outline :=
  outline.addPieces position (pieces text)

variable {outline position}

theorem addText_of_first {c : Char} {tail rest : List Char} {piece : Piece}
    (first : Piece.first c tail = (piece, rest)) :
    outline.addText position (c :: tail) =
      (outline.addPiece position piece).addText (position.advance piece.source) rest := by
  rw [addText, pieces_cons, first]
  rfl

/-- Text in front of other text is passed one character at a time. -/
theorem addText_of_ne {c : Char} (differs : c ≠ '<') (tail : List Char) :
    outline.addText position (c :: tail) = outline.addText (position.advance [c]) tail := by
  rw [addText_of_first (Piece.first_of_ne differs tail)]
  cases tail with
  | nil => rfl
  | cons d tail =>
      cases less : (d != '<') with
      | false => simp [less, addPiece, Piece.source]
      | true =>
          rw [addText_of_first (Piece.first_of_ne (bne_iff_ne.mp less) tail)]
          simp [less, addPiece, Piece.source]

theorem addText_of_not_mem {text : List Char} (free : '<' ∉ text) (rest : List Char) :
    outline.addText position (text ++ rest) = outline.addText (position.advance text) rest := by
  induction text generalizing position with
  | nil => rw [List.nil_append, Position.advance_nil]
  | cons c text ih =>
      have differs : c ≠ '<' := fun same => free (same ▸ List.mem_cons_self)
      rw [List.cons_append, addText_of_ne differs, ih (List.not_mem_of_not_mem_cons free),
        Position.advance_advance, List.singleton_append]

/-- Add a block that an item calls for. -/
def addCalled (outline : Outline) (called : Called) : Outline :=
  outline.addBlock called.block called.position

theorem addPiece_meaning (element : WrittenElement) :
    outline.addPiece position (.element element.meaning) =
      outline.addBlock (element.block position) position := by
  rw [addPiece_element, noteEnding, if_neg]
  · rfl
  · exact element.ending_ne_missing

/-- An item adds the block that it calls for. -/
theorem addText_item (item : Item) (rest : List Char) :
    outline.addText position (item.source ++ rest) =
      ((item.called position).foldl addCalled outline).addText
        (position.advance item.source) rest := by
  cases item with
  | text source free => exact addText_of_not_mem free rest
  | comment source comment =>
      rcases Piece.first_of_isComment comment rest with ⟨tail, whole, first⟩
      rw [Item.source, whole, addText_of_first first]
      rfl
  | endTag inner free =>
      have first := Piece.first_of_endTag free rest
      exact addText_of_first first
  | element written =>
      rcases written.first_source rest with ⟨tail, whole, first⟩
      have source : written.meaning.source = written.source := rfl
      rw [Item.source, whole, addText_of_first first, addPiece_meaning, Item.called, addBlock]
      split
      · rfl
      · next notVoid => simp [addCalled, addBlock, notVoid, Piece.source, source]

/-- So does a row of items. -/
theorem addText_items (items : List Item) :
    outline.addText position (items.flatMap Item.source) =
      (calledFrom position items).foldl addCalled outline := by
  induction items generalizing outline position with
  | nil => simp [addText, addPieces, calledFrom]
  | cons item items ih =>
      rw [List.flatMap_cons, addText_item, ih, calledFrom, List.foldl_append]

end Outline

/-! ## Second blocks -/

/-- An item calls for no empty block. -/
theorem notVoid_of_mem_calledFrom {position : Position} {items : List Item} {called : Called}
    (member : called ∈ calledFrom position items) : called.block.isVoid = false := by
  induction items generalizing position with
  | nil => contradiction
  | cons item items ih =>
      rcases List.mem_append.mp member with here | later
      · cases item with
        | text | comment | endTag => contradiction
        | element written =>
            rw [Item.called] at here
            split at here
            · contradiction
            · next notVoid =>
              rw [List.mem_singleton.mp here]
              simpa using notVoid
      · exact ih later

/-- A called block makes each further one of its kind a second one. -/
theorem Called.secondName?_append (earlier : List Called) (called other : Called) :
    other.secondName? (earlier ++ [called]) =
      if called.block.kind = other.block.kind then other.block.kind.singleName?
      else other.secondName? earlier := by
  rw [secondName?, secondName?, List.any_append]
  cases earlier.any (·.block.kind == other.block.kind) <;>
    by_cases same : called.block.kind = other.block.kind <;> simp [same]

namespace Outline

variable {outline : Outline} {earlier : List Called}

/-- An outline takes the same blocks for second ones as the row of called blocks
does from which it was made. -/
def Mirrors (outline : Outline) (earlier : List Called) : Prop :=
  ∀ called : Called, outline.conflict? called.block.kind = called.secondName? earlier

theorem Mirrors.addCalled_first (mirrors : outline.Mirrors earlier) {called : Called}
    (notVoid : called.block.isVoid = false) (first : called.secondName? earlier = none) :
    outline.addCalled called = { outline with blocks := outline.blocks ++ [called.block] } := by
  rw [addCalled, addBlock, notVoid, if_neg Bool.false_ne_true, mirrors, first]

theorem Mirrors.addCalled_second (mirrors : outline.Mirrors earlier) {called : Called} {name : String}
    (notVoid : called.block.isVoid = false) (second : called.secondName? earlier = some name) :
    outline.addCalled called = outline.report (.duplicateBlock name) called.position := by
  rw [addCalled, addBlock, notVoid, if_neg Bool.false_ne_true, mirrors, second]

/-- One more block makes each further one of its kind a second one. -/
theorem conflict?_append (outline : Outline) (block : Block) (kind : BlockKind) :
    conflict? { outline with blocks := outline.blocks ++ [block] } kind =
      if block.kind = kind then kind.singleName? else outline.conflict? kind := by
  rw [conflict?, conflict?, List.any_append]
  cases outline.blocks.any (·.kind == kind) <;> by_cases same : block.kind = kind <;> simp [same]

/-- The outline goes on to mirror the row when a block is added. -/
theorem Mirrors.addCalled (mirrors : outline.Mirrors earlier) {called : Called}
    (notVoid : called.block.isVoid = false) :
    (outline.addCalled called).Mirrors (earlier ++ [called]) := by
  intro other
  rw [Called.secondName?_append]
  cases second : called.secondName? earlier with
  | none =>
      rw [mirrors.addCalled_first notVoid second, ← mirrors other]
      exact conflict?_append outline called.block other.block.kind
  | some name =>
      rw [mirrors.addCalled_second notVoid second]
      change outline.conflict? other.block.kind = _
      rw [mirrors other]
      split
      · next same =>
        -- The kind is one that the earlier blocks have already.
        have held : earlier.any (·.block.kind == called.block.kind) = true := by
          apply Classical.byContradiction
          intro absent
          rw [Called.secondName?, if_neg absent] at second
          contradiction
        rw [Called.secondName?, ← same, if_pos held]
      · rfl

/-- Blocks that are added one after the other make the outline of their row. -/
theorem foldl_addCalled {row : List Called} (mirrors : outline.Mirrors earlier)
    (notVoid : ∀ called ∈ row, called.block.isVoid = false) :
    row.foldl Outline.addCalled outline =
      { blocks := outline.blocks ++ (ofCalled (withEarlier earlier row)).blocks
        problems := outline.problems ++ (ofCalled (withEarlier earlier row)).problems } := by
  induction row generalizing outline earlier with
  | nil => simp [withEarlier, ofCalled]
  | cons called row ih =>
      have here := notVoid called List.mem_cons_self
      have others : ∀ called ∈ row, called.block.isVoid = false :=
        fun other member => notVoid other (List.mem_cons_of_mem called member)
      rw [List.foldl_cons, ih (mirrors.addCalled here) others]
      cases second : called.secondName? earlier with
      | none =>
          rw [mirrors.addCalled_first here second]
          simp [withEarlier, ofCalled, second]
      | some name =>
          rw [mirrors.addCalled_second here second]
          simp [withEarlier, ofCalled, second, report]

end Outline

/-- The outline of a component is the one that its items call for. -/
theorem outline_flatMap_source (items : List Item) :
    outline (items.flatMap Item.source) = calledOutline items := by
  have mirrors : Outline.Mirrors {} [] := fun _ => rfl
  have added : Outline.addPieces {} ⟨[]⟩ (pieces (items.flatMap Item.source)) =
      (calledFrom ⟨[]⟩ items).foldl Outline.addCalled {} := Outline.addText_items items
  have notVoid : ∀ called ∈ calledFrom ⟨[]⟩ items, called.block.isVoid = false :=
    fun _ member => notVoid_of_mem_calledFrom member
  rw [outline, added, Outline.foldl_addCalled mirrors notVoid]
  rfl

/-- Two scripts, in each of which the end tag is begun but not held. -/
example :
    let script : WrittenElement :=
      { name := ⟨'s', ['c', 'r', 'i', 'p', 't'], rfl, by simp⟩
        tag := ⟨[], ⟨[], by simp⟩, false, by simp⟩
        content := .enclosed rfl "</scrip".toList (.raw (by decide) (by decide))
          ⟨[' '], by simp [isMarkupBlank]⟩ }
    calledOutline [.element script, .element script] =
      { blocks := [⟨.script, [], ⟨"<script>".toList⟩, "</scrip".toList, .endTag "</script >".toList⟩]
        problems := [⟨.duplicateBlock "script", ⟨"<script></scrip</script >".toList⟩⟩] } := by
  decide +kernel

end ScriptView.Component
