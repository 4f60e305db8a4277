import ScriptView.Proofs.Component.Blocks

/-!
# Edits of a component

An edit puts another text in the place of a stretch of a component. What it does
to a position, a block or an outline is defined here without reading the changed
component: nothing moves up to the start of the stretch, and what is behind it
moves by the difference of the lengths. Adding pieces behind the stretch to an
outline commutes with the edit (`Edit.outline_addPieces`).
-/

namespace ScriptView.Component

open Text

/-- The replacement of a stretch of a component: where the stretch starts, the
text in it and the text that is put there. -/
structure Edit where
  start : Position
  old : List Char
  new : List Char

namespace Edit

/-- The replacement of the content of a block. -/
def ofBlock (block : Block) (content : List Char) : Edit :=
  ⟨block.start, block.content, content⟩

/-- Where a position moves. -/
def position (edit : Edit) (place : Position) : Position :=
  if place.offset ≤ edit.start.offset then place
  else
    ⟨edit.start.before ++ edit.new ++
      place.before.drop (edit.start.before.length + edit.old.length)⟩

/-- What becomes of a block: the block that starts with the stretch has the new
content, and every other one moves. -/
def block (edit : Edit) (other : Block) : Block :=
  if other.start.offset = edit.start.offset then { other with content := edit.new }
  else { other with start := edit.position other.start }

/-- What becomes of a problem. -/
def problem (edit : Edit) (problem : Problem) : Problem :=
  { problem with position := edit.position problem.position }

/-- What becomes of an outline. -/
def outline (edit : Edit) (outline : Outline) : Outline where
  blocks := outline.blocks.map edit.block
  problems := outline.problems.map edit.problem

/-- A position behind the stretch. -/
def IsBehind (edit : Edit) (place : Position) : Prop :=
  edit.start.offset < place.offset ∧ ∃ more, place.before = edit.start.before ++ edit.old ++ more

/-- How an offset moves: up to the start of the stretch it stays, and from the
end of the stretch on it moves by the difference of the lengths. -/
def Moves (edit : Edit) (offset moved : Nat) : Prop :=
  offset ≤ edit.start.offset ∧ moved = offset ∨
    edit.start.offset + byteLength edit.old ≤ offset ∧
      moved + byteLength edit.old = offset + byteLength edit.new

variable {edit : Edit} {place : Position}

theorem position_of_le (upTo : place.offset ≤ edit.start.offset) : edit.position place = place :=
  if_pos upTo

theorem block_of_lt {other : Block} (less : other.start.offset < edit.start.offset) :
    edit.block other = other := by
  rw [block, if_neg (Nat.ne_of_lt less), position_of_le (Nat.le_of_lt less)]

theorem block_of_ne {other : Block} (differs : other.start.offset ≠ edit.start.offset) :
    edit.block other = { other with start := edit.position other.start } :=
  if_neg differs

/-- The block whose content is replaced. -/
theorem block_ofBlock (block : Block) (content : List Char) :
    (ofBlock block content).block block = { block with content } :=
  if_pos rfl

theorem position_of_isBehind (behind : edit.start.offset < place.offset) (more : List Char)
    (split : place.before = edit.start.before ++ edit.old ++ more) :
    edit.position place = ⟨edit.start.before ++ edit.new ++ more⟩ := by
  have dropped : place.before.drop (edit.start.before.length + edit.old.length) = more := by
    rw [split]
    exact List.drop_left' (List.length_append)
  rw [position, if_neg (Nat.not_le_of_lt behind), dropped]

theorem IsBehind.advance (behind : edit.IsBehind place) (passed : List Char) :
    edit.IsBehind (place.advance passed) := by
  rcases behind with ⟨less, more, split⟩
  constructor
  · rw [Position.offset_advance]
    exact Nat.lt_add_right _ less
  · exact ⟨more ++ passed, by rw [Position.advance, split, List.append_assoc]⟩

theorem IsBehind.position_advance (behind : edit.IsBehind place) (passed : List Char) :
    edit.position (place.advance passed) = (edit.position place).advance passed := by
  rcases behind.advance passed with ⟨lessFurther, _⟩
  rcases behind with ⟨less, more, split⟩
  have further : (place.advance passed).before =
      edit.start.before ++ edit.old ++ (more ++ passed) := by
    rw [Position.advance, split, List.append_assoc]
  rw [position_of_isBehind less more split, position_of_isBehind lessFurther _ further,
    Position.advance, List.append_assoc _ more]

theorem moves_of_le (upTo : place.offset ≤ edit.start.offset) :
    edit.Moves place.offset (edit.position place).offset :=
  .inl ⟨upTo, by rw [position_of_le upTo]⟩

/-- Positions behind the stretch move by the difference of the lengths. -/
theorem IsBehind.moves (behind : edit.IsBehind place) :
    edit.Moves place.offset (edit.position place).offset := by
  rcases behind with ⟨less, more, split⟩
  rw [position_of_isBehind less more split]
  simp only [Moves, Position.offset, split, byteLength_append]
  omega

@[simp] theorem kind_block (edit : Edit) (other : Block) : (edit.block other).kind = other.kind := by
  rw [block]
  split <;> rfl

theorem conflict?_outline (edit : Edit) (outline : Outline) (kind : BlockKind) :
    (edit.outline outline).conflict? kind = outline.conflict? kind := by
  simp [Outline.conflict?, Edit.outline, List.any_map, Function.comp_def]

theorem find?_outline (edit : Edit) (outline : Outline) (kind : BlockKind) :
    (edit.outline outline).find? kind = (outline.find? kind).map edit.block := by
  have sameKind : (fun other : Block => other.kind == kind) ∘ edit.block =
      fun other => other.kind == kind := by
    funext other
    rw [Function.comp_apply, kind_block]
  rw [Outline.find?, Edit.outline, List.find?_map, sameKind, Outline.find?]

theorem scriptBlock?_outline (edit : Edit) (outline : Outline) :
    (edit.outline outline).scriptBlock? = outline.scriptBlock?.map edit.block := by
  rw [Outline.scriptBlock?, Outline.scriptBlock?, find?_outline, find?_outline]
  cases outline.find? .scriptSetup <;> rfl

theorem outline_report (edit : Edit) (outline : Outline) (defect : Defect) (place : Position) :
    edit.outline (outline.report defect place) =
      (edit.outline outline).report defect (edit.position place) := by
  simp [Outline.report, Edit.outline, problem]

theorem outline_addBlock (edit : Edit) (outline : Outline) {other moved : Block}
    (place : Position) (becomes : edit.block other = moved) (sameVoid : moved.isVoid = other.isVoid) :
    edit.outline (outline.addBlock other place) =
      (edit.outline outline).addBlock moved (edit.position place) := by
  subst becomes
  rw [Outline.addBlock, Outline.addBlock, sameVoid, conflict?_outline, kind_block]
  split
  · rfl
  · split
    · exact outline_report _ _ _ _
    · simp [Edit.outline]

theorem outline_noteEnding (edit : Edit) (outline : Outline) (element : Element)
    (place : Position) :
    edit.outline (outline.noteEnding element place) =
      (edit.outline outline).noteEnding element (edit.position place) := by
  rw [Outline.noteEnding, Outline.noteEnding]
  split
  · exact outline_report _ _ _ _
  · rfl

theorem IsBehind.block_blockOf (behind : edit.IsBehind place) (element : Element) :
    edit.block (Outline.blockOf element place) =
      Outline.blockOf element (edit.position place) := by
  have further := behind.advance element.opening
  rw [block, if_neg]
  · rw [Outline.blockOf, Outline.blockOf]
    simp only [behind.position_advance]
  · exact (Nat.ne_of_lt further.1).symm

/-- A piece behind the stretch adds to the edited outline what it adds to the
outline, moved. -/
theorem IsBehind.outline_addPiece (behind : edit.IsBehind place) (outline : Outline)
    (piece : Piece) :
    edit.outline (outline.addPiece place piece) =
      (edit.outline outline).addPiece (edit.position place) piece := by
  cases piece with
  | text | comment | endTag | openEndTag => rfl
  | openComment | openTag => exact outline_report _ _ _ _
  | element element =>
      rw [Outline.addPiece_element, Outline.addPiece_element, ← outline_noteEnding]
      exact outline_addBlock edit _ place (behind.block_blockOf element) rfl

theorem IsBehind.outline_addPieces (behind : edit.IsBehind place) (outline : Outline)
    (pieces : List Piece) :
    edit.outline (outline.addPieces place pieces) =
      (edit.outline outline).addPieces (edit.position place) pieces := by
  induction pieces generalizing outline place with
  | nil => rfl
  | cons piece pieces ih =>
      rw [Outline.addPieces, Outline.addPieces, ih (behind.advance piece.source),
        behind.outline_addPiece, behind.position_advance]

end Edit

/-- One outline is another with the content of one block replaced. All blocks and
problems are there in their order; only the block's content differs, and every
offset of a block's start or end or of a problem moves with the edit. -/
structure Outline.Replaced (block : Block) (content : List Char) (old new : Outline) : Prop where
  blocks_eq : new.blocks = old.blocks.map (Edit.ofBlock block content).block
  problems_eq : new.problems = old.problems.map (Edit.ofBlock block content).problem
  block_eq : ∀ other ∈ old.blocks, (Edit.ofBlock block content).block other =
    if other = block then { block with content }
    else { other with start := (Edit.ofBlock block content).position other.start }
  moves_start : ∀ other ∈ old.blocks, (Edit.ofBlock block content).Moves
    other.start.offset ((Edit.ofBlock block content).block other).start.offset
  moves_stop : ∀ other ∈ old.blocks, (Edit.ofBlock block content).Moves
    other.stop.offset ((Edit.ofBlock block content).block other).stop.offset
  moves_problem : ∀ problem ∈ old.problems, (Edit.ofBlock block content).Moves
    problem.position.offset ((Edit.ofBlock block content).problem problem).position.offset

end ScriptView.Component
