import ScriptView.Component.Piece
import ScriptView.Text.Position

/-!
# The outline of a component

The outline lists the blocks that a component's elements make, in document
order, and the problems met on the way; no text is without an outline. An
element makes no block if it is empty: if its body is blank, it is not the
template and it has no `src` attribute. Of the template, the script and the
setup script there is one each, and a second one is a problem.
-/

namespace ScriptView.Component

open Text

/-- What a block is. -/
inductive BlockKind where
  | template
  | script
  | scriptSetup
  | style
  | custom (name : String)
  deriving DecidableEq, Repr

namespace BlockKind

/-- The kind of an element's block. A `script` with a `setup` attribute is the
setup script. -/
def ofElement (name : String) (attributes : Attributes) : BlockKind :=
  match name with
  | "template" => .template
  | "script" => if attributes.has "setup" then .scriptSetup else .script
  | "style" => .style
  | name => .custom name

/-- How a kind is named that a component has once only; the others have no
such name. -/
def singleName? : BlockKind → Option String
  | .template => some "template"
  | .script => some "script"
  | .scriptSetup => some "script setup"
  | .style | .custom _ => none

end BlockKind

/-- A block: what it is, where its content starts, the content, and how the
element that makes the block ends. -/
structure Block where
  kind : BlockKind
  attributes : Attributes
  start : Position
  content : List Char
  ending : Ending
  deriving DecidableEq, Repr

namespace Block

/-- The position behind the content. -/
def stop (block : Block) : Position :=
  block.start.advance block.content

/-- The content as a string. -/
def text (block : Block) : String :=
  String.ofList block.content

/-- The language that the block says it is written in. -/
def language? (block : Block) : Option String :=
  (block.attributes.get? "lang").bind AttributeValue.text?

/-- The file that the block says its content is in. -/
def source? (block : Block) : Option String :=
  (block.attributes.get? "src").bind AttributeValue.text?

/-- Whether a block is empty and therefore left out. A template never is. -/
def isVoid (block : Block) : Bool :=
  block.kind != .template && block.content.all isBlank && !block.attributes.has "src"

end Block

/-- What can be wrong with a component. -/
inductive Defect where
  | duplicateBlock (name : String)
  | missingEndTag (name : String)
  | unterminatedTag (name : String)
  | unterminatedComment
  deriving DecidableEq, Repr

/-- The wording of a defect. -/
def Defect.message : Defect → String
  | .duplicateBlock name => s!"a component can contain only one <{name}> element"
  | .missingEndTag name => s!"element <{name}> is missing its end tag"
  | .unterminatedTag name => s!"unterminated opening tag <{name}"
  | .unterminatedComment => "unterminated comment"

/-- A defect and the position of the `<` that it is about. -/
structure Problem where
  defect : Defect
  position : Position
  deriving DecidableEq, Repr

/-- The wording of a problem, with its line and column. -/
def Problem.message (problem : Problem) : String :=
  let defect := problem.defect.message
  let line := problem.position.line
  let column := problem.position.column
  s!"{defect} at {line}:{column}"

/-- The blocks of a component in document order, and its problems in the order
in which they are met. -/
structure Outline where
  blocks : List Block := []
  problems : List Problem := []
  deriving DecidableEq, Repr

namespace Outline

/-- The first block of a kind. -/
def find? (outline : Outline) (kind : BlockKind) : Option Block :=
  outline.blocks.find? (·.kind == kind)

/-- The style blocks. -/
def styles (outline : Outline) : List Block :=
  outline.blocks.filter (·.kind == .style)

/-- The blocks of no fixed kind. -/
def customBlocks (outline : Outline) : List Block :=
  outline.blocks.filter fun block =>
    match block.kind with
    | .custom _ => true
    | _ => false

/-- Note a problem behind the ones already met. -/
def report (outline : Outline) (defect : Defect) (position : Position) : Outline :=
  { outline with problems := outline.problems ++ [⟨defect, position⟩] }

/-- The name under which a further block of this kind would be a second one. -/
def conflict? (outline : Outline) (kind : BlockKind) : Option String :=
  if outline.blocks.any (·.kind == kind) then kind.singleName? else none

/-- Add the block of an element whose tag starts at a position. -/
def addBlock (outline : Outline) (block : Block) (position : Position) : Outline :=
  if block.isVoid then outline
  else
    match outline.conflict? block.kind with
    | some name => outline.report (.duplicateBlock name) position
    | none => { outline with blocks := outline.blocks ++ [block] }

/-- The block that an element makes. -/
def blockOf (element : Element) (position : Position) : Block where
  kind := .ofElement element.name element.tag.attributes
  attributes := element.tag.attributes
  start := position.advance element.opening
  content := element.body
  ending := element.ending

/-- Add what a piece at a position tells. -/
def addPiece (outline : Outline) (position : Position) : Piece → Outline
  | .text _ | .comment _ | .endTag _ | .openEndTag _ => outline
  | .openComment _ => outline.report .unterminatedComment position
  | .openTag name _ => outline.report (.unterminatedTag name) position
  | .element element =>
      let noted :=
        if element.ending = .missing then outline.report (.missingEndTag element.name) position
        else outline
      noted.addBlock (blockOf element position) position

/-- Add what a row of pieces tells, the first of which is at a position. -/
def addPieces (outline : Outline) (position : Position) : List Piece → Outline
  | [] => outline
  | piece :: rest =>
      (outline.addPiece position piece).addPieces (position.advance piece.source) rest

end Outline

/-- The outline of a component. -/
def outline (source : List Char) : Outline :=
  Outline.addPieces {} ⟨[]⟩ (pieces source)

end ScriptView.Component
