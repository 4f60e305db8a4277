import ScriptView.Component.Script
import ScriptView.Proofs.Component.Element

/-!
# Where blocks come from

Every block of an outline is the block of one of the elements of the component,
and every problem is about one of its pieces. The lemmas say which: they split
the pieces into those before, the piece itself and those behind, which fixes the
position of what the outline lists. What a piece reports is one equation,
`Outline.problems_addPiece`.
-/

namespace ScriptView

namespace Text

@[simp] theorem Position.advance_nil (position : Position) : position.advance [] = position := by
  rw [Position.advance, List.append_nil]

@[simp] theorem Position.advance_advance (position : Position) (first second : List Char) :
    (position.advance first).advance second = position.advance (first ++ second) := by
  rw [Position.advance, Position.advance, Position.advance, List.append_assoc]

theorem byteLength_pos {text : List Char} (nonempty : text ≠ []) : 0 < byteLength text := by
  cases text with
  | nil => contradiction
  | cons c rest =>
      rw [byteLength_cons]
      exact Nat.add_pos_left c.utf8Size_pos _

/-- A position lies before every position that has more text before it. -/
theorem Position.offset_lt {first second : Position} (more : List Char)
    (split : second.before = first.before ++ more) (nonempty : more ≠ []) :
    first.offset < second.offset := by
  have longer := byteLength_pos nonempty
  rw [Position.offset, Position.offset, split, byteLength_append]
  omega

end Text

namespace Component

open Text

namespace BlockKind

/-- Only an element named `script` makes a script block of either kind. -/
theorem name_eq_script_of_ofElement {name : String} {attributes : Attributes}
    (isScript : ofElement name attributes = .script ∨
      ofElement name attributes = .scriptSetup) : name = "script" := by
  rw [ofElement.eq_def] at isScript
  split at isScript
  · simp at isScript
  · rfl
  · simp at isScript
  · simp at isScript

end BlockKind

theorem Block.start_le_stop (block : Block) : block.start.offset ≤ block.stop.offset := by
  rw [Block.stop, Position.offset_advance]
  exact Nat.le_add_right _ _

/-- The defect of a piece that the text leaves unfinished. -/
def Piece.unfinished? : Piece → Option Defect
  | .text _ | .comment _ | .endTag _ | .openEndTag _ => none
  | .openComment _ => some .unterminatedComment
  | .openTag name _ => some (.unterminatedTag name)
  | .element inner =>
      if inner.ending = .missing then some (.missingEndTag inner.name) else none

namespace Outline

variable {outline : Outline} {position : Position}

theorem addPieces_append (outline : Outline) (position : Position) (earlier later : List Piece) :
    outline.addPieces position (earlier ++ later) =
      (outline.addPieces position earlier).addPieces
        (position.advance (earlier.flatMap Piece.source)) later := by
  induction earlier generalizing outline position with
  | nil => simp [addPieces]
  | cons piece earlier ih =>
      rw [List.cons_append, addPieces, addPieces, ih, List.flatMap_cons, Position.advance_advance]

/-- A block that an element adds is neither empty nor a second one. -/
theorem mem_blocks_addBlock {block added : Block}
    (member : block ∈ (outline.addBlock added position).blocks) :
    block ∈ outline.blocks ∨
      block = added ∧ added.isVoid = false ∧ outline.conflict? added.kind = none := by
  rw [addBlock] at member
  split at member
  · exact .inl member
  · next notVoid =>
    split at member
    · exact .inl member
    · next unique =>
      rcases List.mem_append.mp member with old | new
      · exact .inl old
      · exact .inr ⟨List.mem_singleton.mp new, by simpa using notVoid, unique⟩

/-- The outline with the note that an element has no end tag, if it has none. -/
def noteEnding (outline : Outline) (element : Element) (position : Position) : Outline :=
  if element.ending = .missing then outline.report (.missingEndTag element.name) position
  else outline

@[simp] theorem blocks_noteEnding (outline : Outline) (element : Element) (position : Position) :
    (outline.noteEnding element position).blocks = outline.blocks := by
  rw [noteEnding]
  split <;> rfl

theorem addPiece_element (outline : Outline) (position : Position) (element : Element) :
    outline.addPiece position (.element element) =
      (outline.noteEnding element position).addBlock (blockOf element position) position := rfl

theorem mem_blocks_addPiece {block : Block} {piece : Piece}
    (member : block ∈ (outline.addPiece position piece).blocks) :
    block ∈ outline.blocks ∨ ∃ element, piece = .element element ∧
      block = blockOf element position ∧ block.isVoid = false ∧
        outline.conflict? block.kind = none := by
  cases piece with
  | text | comment | endTag | openEndTag | openComment | openTag => exact .inl member
  | element element =>
      rw [addPiece_element] at member
      rcases mem_blocks_addBlock member with old | ⟨rfl, notVoid, unique⟩
      · rw [blocks_noteEnding] at old
        exact .inl old
      · rw [conflict?, blocks_noteEnding] at unique
        exact .inr ⟨element, rfl, rfl, notVoid, unique⟩

/-- Where a block comes from that pieces add. -/
theorem mem_blocks_addPieces {block : Block} {pieces : List Piece}
    (member : block ∈ (outline.addPieces position pieces).blocks) :
    block ∈ outline.blocks ∨ ∃ earlier element later,
      pieces = earlier ++ .element element :: later ∧
      block = blockOf element (position.advance (earlier.flatMap Piece.source)) ∧
      block.isVoid = false ∧
      (outline.addPieces position earlier).conflict? block.kind = none := by
  induction pieces generalizing outline position with
  | nil => exact .inl member
  | cons piece pieces ih =>
      rw [addPieces] at member
      rcases ih member with old | ⟨earlier, element, later, rfl, rfl, notVoid, unique⟩
      · rcases mem_blocks_addPiece old with older | ⟨element, rfl, rfl, notVoid, unique⟩
        · exact .inl older
        · exact .inr ⟨[], element, pieces, rfl, by simp, notVoid, unique⟩
      · refine .inr ⟨piece :: earlier, element, later, rfl, ?_, notVoid, unique⟩
        rw [Position.advance_advance, List.flatMap_cons]

/-- The defect of a piece that makes a second block. -/
def second? (outline : Outline) : Piece → Option Defect
  | .element element =>
      let block := blockOf element ⟨[]⟩
      if block.isVoid then none else (outline.conflict? block.kind).map .duplicateBlock
  | _ => none

/-- All defects of a piece, in the order in which they are met. -/
def defects (outline : Outline) (piece : Piece) : List Defect :=
  piece.unfinished?.toList ++ (outline.second? piece).toList

theorem problems_addBlock (outline : Outline) (element : Element) (position : Position) :
    (outline.addBlock (blockOf element position) position).problems =
      outline.problems ++ (outline.second? (.element element)).toList.map (⟨·, position⟩) := by
  have void : (blockOf element position).isVoid = (blockOf element ⟨[]⟩).isVoid := rfl
  have kind : (blockOf element position).kind = (blockOf element ⟨[]⟩).kind := rfl
  rw [addBlock, second?, void, kind]
  split
  · simp
  · cases outline.conflict? (blockOf element ⟨[]⟩).kind with
    | none => simp
    | some name => rfl

theorem problems_noteEnding (outline : Outline) (element : Element) (position : Position) :
    (outline.noteEnding element position).problems = outline.problems ++
      (Piece.element element).unfinished?.toList.map (⟨·, position⟩) := by
  rw [noteEnding, Piece.unfinished?]
  split
  · rfl
  · simp

theorem second?_noteEnding (outline : Outline) (element : Element) (position : Position) :
    (outline.noteEnding element position).second? = outline.second? := by
  funext piece
  cases piece with
  | text | comment | endTag | openEndTag | openComment | openTag => rfl
  | element other =>
      rw [second?, second?, conflict?, conflict?, blocks_noteEnding]

/-- A piece reports its defects at its position. -/
theorem problems_addPiece (outline : Outline) (position : Position) (piece : Piece) :
    (outline.addPiece position piece).problems =
      outline.problems ++ (outline.defects piece).map (⟨·, position⟩) := by
  cases piece with
  | text | comment | endTag | openEndTag => simp [addPiece, defects, Piece.unfinished?, second?]
  | openComment | openTag => rfl
  | element element =>
      rw [addPiece_element, problems_addBlock, problems_noteEnding, second?_noteEnding, defects,
        List.map_append, List.append_assoc]

theorem mem_problems_addPiece_iff {problem : Problem} {piece : Piece} :
    problem ∈ (outline.addPiece position piece).problems ↔
      problem ∈ outline.problems ∨
        problem.position = position ∧ problem.defect ∈ outline.defects piece := by
  rw [problems_addPiece, List.mem_append, List.mem_map]
  constructor
  · intro member
    apply member.imp id
    intro new
    rcases new with ⟨defect, found, here⟩
    rw [← here]
    exact ⟨rfl, found⟩
  · intro member
    apply member.imp id
    intro new
    exact ⟨problem.defect, new.2, by rw [← new.1]⟩

theorem mem_problems_addPiece {problem : Problem} {piece : Piece}
    (member : problem ∈ (outline.addPiece position piece).problems) :
    problem ∈ outline.problems ∨ problem.position = position :=
  (mem_problems_addPiece_iff.mp member).imp id And.left

/-- Where a problem comes from that pieces add. -/
theorem mem_problems_addPieces {problem : Problem} {pieces : List Piece}
    (member : problem ∈ (outline.addPieces position pieces).problems) :
    problem ∈ outline.problems ∨ ∃ earlier piece later, pieces = earlier ++ piece :: later ∧
      problem.position = position.advance (earlier.flatMap Piece.source) := by
  induction pieces generalizing outline position with
  | nil => exact .inl member
  | cons piece pieces ih =>
      rw [addPieces] at member
      rcases ih member with old | ⟨earlier, other, later, rfl, here⟩
      · rcases mem_problems_addPiece old with older | here
        · exact .inl older
        · exact .inr ⟨[], piece, pieces, rfl, by simp [here]⟩
      · refine .inr ⟨piece :: earlier, other, later, rfl, ?_⟩
        rw [here, Position.advance_advance, List.flatMap_cons]

end Outline

end Component

end ScriptView
