import Mathlib.Data.List.Pairwise
import ScriptView.Proofs.Component.Splice

/-!
# The slots of an outline

A component has one template, one script and one setup script at most, and any
number of styles and of other blocks. Taken slot by slot and put in the order of
their starts, the blocks are the ones that the outline lists, in the order in
which it lists them. Both halves rest on one invariant of reading pieces,
`Outline.Arranged`: a block is listed in front of the next one, and a second one
of a kind that a component has once is not listed.
-/

namespace ScriptView.Component

open Text

/-- Where at most one entry has a property, the first one is the only one. -/
theorem toList_find?_eq_filter {α : Type} {p : α → Bool} {entries : List α}
    (single : entries.Pairwise fun first second => p first = true → p second = false) :
    (entries.find? p).toList = entries.filter p := by
  induction entries with
  | nil => rfl
  | cons first rest ih =>
      rcases List.pairwise_cons.mp single with ⟨alone, single⟩
      cases here : p first with
      | false =>
          rw [List.find?_cons_of_neg (by simp [here]), List.filter_cons_of_neg (by simp [here])]
          exact ih single
      | true =>
          have others : rest.filter p = [] := by
            apply List.filter_eq_nil_iff.mpr
            intro second member
            simp [alone second member here]
          rw [List.find?_cons_of_pos here, List.filter_cons_of_pos here, others]
          rfl

namespace Outline

variable {outline : Outline} {position : Position}

/-- The blocks of an outline slot by slot: the template, the script and the setup
script, the styles, and the blocks of no fixed kind. -/
def slots (outline : Outline) : List Block :=
  (outline.find? .template).toList ++ ((outline.find? .script).toList ++
    ((outline.find? .scriptSetup).toList ++ (outline.styles ++ outline.customBlocks)))

/-- The blocks of all slots in the order of their starts. -/
def inOrder (outline : Outline) : List Block :=
  outline.slots.mergeSort fun first second => decide (first.start.offset ≤ second.start.offset)

/-! ## Reading keeps blocks apart -/

/-- How the blocks stand that are listed when a position is reached. -/
structure Arranged (outline : Outline) (position : Position) : Prop where
  apart : outline.blocks.Pairwise fun first second => first.stop.offset < second.start.offset
  passed : ∀ block ∈ outline.blocks, block.stop.offset ≤ position.offset
  single : outline.blocks.Pairwise fun first second =>
    first.kind = second.kind → second.kind.singleName? = none

namespace Arranged

theorem empty : Arranged {} position where
  apart := List.Pairwise.nil
  passed := by simp
  single := List.Pairwise.nil

theorem of_blocks_eq {other : Outline} (arranged : outline.Arranged position)
    (same : other.blocks = outline.blocks) : other.Arranged position where
  apart := same ▸ arranged.apart
  passed := same ▸ arranged.passed
  single := same ▸ arranged.single

theorem of_offset_le {later : Position} (arranged : outline.Arranged position)
    (le : position.offset ≤ later.offset) : outline.Arranged later where
  apart := arranged.apart
  passed := fun block member => Nat.le_trans (arranged.passed block member) le
  single := arranged.single

theorem advance (arranged : outline.Arranged position) (text : List Char) :
    outline.Arranged (position.advance text) := by
  apply arranged.of_offset_le
  rw [Position.offset_advance]
  exact Nat.le_add_right _ _

/-- A block that starts behind the position reached is put behind the others. -/
theorem addBlock {added : Block} (arranged : outline.Arranged position)
    (behind : position.offset < added.start.offset) (place : Position) :
    (outline.addBlock added place).Arranged added.stop := by
  have reached : position.offset ≤ added.stop.offset :=
    Nat.le_trans (Nat.le_of_lt behind) added.start_le_stop
  rw [Outline.addBlock]
  split
  · exact arranged.of_offset_le reached
  · split
    · exact (arranged.of_offset_le reached).of_blocks_eq rfl
    · next unique =>
      constructor
      · apply List.pairwise_append.mpr
        refine ⟨arranged.apart, List.pairwise_singleton _ _, ?_⟩
        intro first member second isAdded
        rw [List.mem_singleton.mp isAdded]
        exact Nat.lt_of_le_of_lt (arranged.passed first member) behind
      · intro block member
        rcases List.mem_append.mp member with old | new
        · exact Nat.le_trans (arranged.passed block old) reached
        · exact Nat.le_of_eq (by rw [List.mem_singleton.mp new])
      · apply List.pairwise_append.mpr
        refine ⟨arranged.single, List.pairwise_singleton _ _, ?_⟩
        intro first member second isAdded sameKind
        rw [List.mem_singleton.mp isAdded] at sameKind ⊢
        have listed : outline.blocks.any (·.kind == added.kind) = true :=
          List.any_eq_true.mpr ⟨first, member, beq_iff_eq.mpr sameKind⟩
        rw [conflict?, if_pos listed] at unique
        exact unique

/-- One piece keeps blocks apart if an element's opening tag takes some text. -/
theorem addPiece {piece : Piece} (arranged : outline.Arranged position)
    (opened : ∀ element, piece = .element element → element.opening ≠ []) :
    (outline.addPiece position piece).Arranged (position.advance piece.source) := by
  cases piece with
  | text | comment | endTag | openEndTag => exact arranged.advance _
  | openComment | openTag => exact (arranged.advance _).of_blocks_eq rfl
  | element element =>
      rw [addPiece_element]
      have noted : (outline.noteEnding element position).Arranged position :=
        arranged.of_blocks_eq (blocks_noteEnding outline element position)
      have behind : position.offset < (blockOf element position).start.offset :=
        Position.offset_lt element.opening rfl (opened element rfl)
      have added := (noted.addBlock behind position).advance element.ending.source
      rw [blockOf, Block.stop, Position.advance_advance, Position.advance_advance,
        ← List.append_assoc] at added
      exact added

/-- So does a row of pieces. -/
theorem addPieces {pieces : List Piece} (arranged : outline.Arranged position)
    (opened : ∀ element, .element element ∈ pieces → element.opening ≠ []) :
    (outline.addPieces position pieces).Arranged
      (position.advance (pieces.flatMap Piece.source)) := by
  induction pieces generalizing outline position with
  | nil => simpa [Outline.addPieces] using arranged
  | cons piece pieces ih =>
      have first : (outline.addPiece position piece).Arranged (position.advance piece.source) := by
        apply arranged.addPiece
        intro element same
        exact opened element (same ▸ List.mem_cons_self)
      have rest := ih first fun element member => opened element (List.mem_cons_of_mem _ member)
      rw [Position.advance_advance] at rest
      exact rest

/-- The first block of a kind that a component has once is the only one. -/
theorem toList_find? {kind : BlockKind} (arranged : outline.Arranged position)
    (once : kind.singleName? ≠ none) :
    (outline.find? kind).toList = outline.blocks.filter (·.kind == kind) := by
  apply toList_find?_eq_filter
  apply arranged.single.imp
  intro first second single isKind
  apply Bool.eq_false_iff.mpr
  intro isKindToo
  rw [beq_iff_eq] at isKind isKindToo
  rw [isKind, isKindToo] at single
  exact once (single rfl)

/-- Every block is in one slot, and once. -/
theorem slots_perm (arranged : outline.Arranged position) :
    outline.slots.Perm outline.blocks := by
  rw [slots, arranged.toList_find? (by decide), arranged.toList_find? (by decide),
    arranged.toList_find? (by decide), styles, customBlocks, List.perm_iff_count]
  intro block
  have inSlot : ∀ p : Block → Bool, (outline.blocks.filter p).count block =
      if p block = true then outline.blocks.count block else 0 := by
    intro p
    split
    · next holds => exact List.count_filter holds
    · next fails =>
      apply List.count_eq_zero.mpr
      intro member
      exact fails (List.mem_filter.mp member).2
  simp only [List.count_append, inSlot]
  cases kind : block.kind with
  | template | script | scriptSetup | style | custom => simp

end Arranged

theorem arranged (source : List Char) : (Component.outline source).Arranged ⟨source⟩ := by
  have start : Arranged {} ⟨[]⟩ := Arranged.empty
  have opened : ∀ element, .element element ∈ pieces source → element.opening ≠ [] := by
    intro element member
    rcases List.append_of_mem member with ⟨earlier, later, read⟩
    rcases exists_readFrom read with ⟨_, _, readFrom⟩
    exact readFrom.opening_ne_nil
  have read := start.addPieces opened
  rw [flatMap_source_pieces] at read
  exact read

/-- Two blocks that start at one place are one block. -/
theorem Arranged.eq_of_offset_eq {first second : Block} (arranged : outline.Arranged position)
    (firstMember : first ∈ outline.blocks) (secondMember : second ∈ outline.blocks)
    (same : first.start.offset = second.start.offset) : first = second := by
  have distinct : outline.blocks.Pairwise fun first second =>
      first.start.offset ≠ second.start.offset := by
    apply arranged.apart.imp
    intro first second less
    have := first.start_le_stop
    omega
  have : Std.Symm fun first second : Block => first.start.offset ≠ second.start.offset :=
    ⟨fun _ _ differs => differs.symm⟩
  apply Classical.byContradiction
  intro differs
  exact distinct.forall firstMember secondMember differs same

/-- The blocks in the order of their starts are the blocks as they are listed. -/
theorem Arranged.inOrder_eq_blocks (arranged : outline.Arranged position) :
    outline.inOrder = outline.blocks := by
  have perm : outline.inOrder.Perm outline.blocks :=
    (List.mergeSort_perm _ _).trans arranged.slots_perm
  have sorted : outline.inOrder.Pairwise fun first second =>
      decide (first.start.offset ≤ second.start.offset) = true :=
    List.pairwise_mergeSort (by simpa using fun _ _ _ => Nat.le_trans)
      (by simp [Nat.le_total]) outline.slots
  have listed : outline.blocks.Pairwise fun first second =>
      decide (first.start.offset ≤ second.start.offset) = true := by
    apply arranged.apart.imp
    intro first second less
    have := first.start_le_stop
    exact decide_eq_true (by omega)
  apply perm.eq_of_pairwise _ sorted listed
  intro first second firstMember secondMember le ge
  exact arranged.eq_of_offset_eq (perm.mem_iff.mp firstMember) secondMember
    (Nat.le_antisymm (of_decide_eq_true le) (of_decide_eq_true ge))

end Outline

end ScriptView.Component
