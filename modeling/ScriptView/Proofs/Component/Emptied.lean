import ScriptView.Proofs.Component.Splice

/-!
# Components with an emptied script

A blank script that is written into a block without a `src` attribute empties the
block, and an empty block is none: the component is read as if the element made
no block at all. What it then has for a script is made by another element, if
there is another one that can make one.
-/

namespace ScriptView.Component

open Text

/-- Whether a piece is an element that can make a script block of either kind. It
does so unless an element before it has made one of that kind. -/
def Piece.makesScript : Piece → Bool
  | .element inner => inner.name == "script" && !(Outline.blockOf inner ⟨[]⟩).isVoid
  | _ => false

/-- A script stays when it is written into a block: it is not blank, or the block
names a file. -/
def Lasts (script : List Char) (block : Block) : Prop :=
  block.attributes.has "src" = true ∨ ∃ c ∈ script, isBlank c = false

instance (script : List Char) (block : Block) : Decidable (Lasts script block) :=
  letI := List.decidableBEx (fun c => isBlank c = false) script
  inferInstanceAs (Decidable (_ ∨ _))

namespace Outline

variable {outline : Outline} {position : Position}

theorem isPrefix_blocks_addBlock {added : Block} :
    outline.blocks <+: (outline.addBlock added position).blocks := by
  rw [addBlock]
  split
  · exact List.prefix_rfl
  · split
    · exact List.prefix_rfl
    · exact List.prefix_append _ _

/-- Further pieces are listed behind the blocks that are there. -/
theorem isPrefix_blocks_addPieces (pieces : List Piece) :
    outline.blocks <+: (outline.addPieces position pieces).blocks := by
  induction pieces generalizing outline position with
  | nil => exact List.prefix_rfl
  | cons piece pieces ih =>
      rw [addPieces]
      refine List.IsPrefix.trans ?_ ih
      cases piece with
      | text | comment | endTag | openEndTag | openComment | openTag => exact List.prefix_rfl
      | element element =>
          rw [addPiece_element, ← blocks_noteEnding outline element position]
          exact isPrefix_blocks_addBlock

/-- Blocks that are listed stay listed when further pieces are read. -/
theorem mem_blocks_addPieces_of_mem {block : Block} (member : block ∈ outline.blocks)
    (pieces : List Piece) : block ∈ (outline.addPieces position pieces).blocks :=
  (isPrefix_blocks_addPieces pieces).subset member

/-- A block that is not empty is listed, or another one of its kind is. -/
theorem exists_kind_of_addBlock {added : Block} (notVoid : added.isVoid = false) :
    ∃ block ∈ (outline.addBlock added position).blocks, block.kind = added.kind := by
  rw [addBlock, if_neg (by simp [notVoid])]
  split
  · next conflict =>
    rw [conflict?] at conflict
    split at conflict
    · next listed =>
      rcases List.any_eq_true.mp listed with ⟨block, member, sameKind⟩
      exact ⟨block, member, beq_iff_eq.mp sameKind⟩
    · cases conflict
  · exact ⟨added, List.mem_append_right _ (List.mem_singleton_self added), rfl⟩

/-- Of the kind of an element that can make a block, a block is listed. -/
theorem exists_kind_of_mem {element : Element} {pieces : List Piece}
    (member : .element element ∈ pieces) (notVoid : (blockOf element ⟨[]⟩).isVoid = false) :
    ∃ block ∈ (outline.addPieces position pieces).blocks,
      block.kind = .ofElement element.name element.tag.attributes := by
  rcases List.append_of_mem member with ⟨earlier, later, rfl⟩
  rw [addPieces_append, addPieces, addPiece_element]
  have notVoidHere : (blockOf element (position.advance (earlier.flatMap Piece.source))).isVoid =
      false := notVoid
  rcases exists_kind_of_addBlock notVoidHere with ⟨block, listed, kind⟩
  exact ⟨block, mem_blocks_addPieces_of_mem listed later, kind⟩

theorem isSome_scriptBlock?_of_mem {block : Block} (member : block ∈ outline.blocks)
    (kind : block.kind = .script ∨ block.kind = .scriptSetup) :
    outline.scriptBlock?.isSome = true := by
  have found : ∀ sort : BlockKind, block.kind = sort → (outline.find? sort).isSome = true := by
    intro sort isSort
    rw [find?, List.find?_isSome]
    exact ⟨block, member, beq_iff_eq.mpr isSort⟩
  rw [scriptBlock?]
  cases setup : outline.find? .scriptSetup with
  | some => rfl
  | none =>
      apply found
      apply kind.resolve_right
      intro isSetup
      have listed := found _ isSetup
      rw [setup] at listed
      cases listed

end Outline

/-- A component has a script exactly if one of its elements can make one. -/
theorem isSome_scriptBlock?_iff {source : List Char} :
    (outline source).scriptBlock?.isSome = true ↔ 0 < (pieces source).countP Piece.makesScript := by
  rw [List.countP_pos_iff]
  constructor
  · intro found
    rcases Option.isSome_iff_exists.mp found with ⟨block, selected⟩
    rcases exists_madeBy_of_scriptBlock? selected with ⟨earlier, element, later, made, named⟩
    refine ⟨.element element, ?_, ?_⟩
    · rw [made.pieces_eq]
      exact List.mem_append_right _ List.mem_cons_self
    · have notVoid := made.notVoid
      rw [made.block_eq] at notVoid
      have notVoidAtStart : (Outline.blockOf element ⟨[]⟩).isVoid = false := notVoid
      rw [Piece.makesScript, named, notVoidAtStart]
      rfl
  · rintro ⟨piece, member, makes⟩
    cases piece with
    | text | comment | endTag | openEndTag | openComment | openTag => cases makes
    | element element =>
        rw [Piece.makesScript, Bool.and_eq_true, beq_iff_eq, Bool.not_eq_true'] at makes
        rcases Outline.exists_kind_of_mem member makes.2 with ⟨block, listed, kind⟩
        apply Outline.isSome_scriptBlock?_of_mem listed
        rw [kind, makes.1]
        change (if _ then _ else _) = _ ∨ (if _ then _ else _) = _
        split
        · exact .inr rfl
        · exact .inl rfl

/-! ## Emptying a block -/

theorem isVoid_of_not_lasts {script : List Char} {block : Block} (fleeting : ¬Lasts script block)
    (kind : block.kind = .script ∨ block.kind = .scriptSetup) :
    Block.isVoid { block with content := '\n' :: script } = true := by
  have notTemplate : block.kind ≠ .template := by
    intro isTemplate
    rw [isTemplate] at kind
    rcases kind with same | same <;> cases same
  have blank : script.all isBlank = true := by
    apply List.all_eq_true.mpr
    intro c member
    apply Classical.byContradiction
    intro notBlank
    exact fleeting (.inr ⟨c, member, by simpa using notBlank⟩)
  have unnamed : block.attributes.has "src" = false := by
    simpa using fun named => fleeting (.inl named)
  simp [Block.isVoid, notTemplate, blank, unnamed, isBlank]

/-- An element with a body that makes its block empty adds no block. -/
theorem Outline.blocks_addPiece_of_isVoid {element : Element} {position : Position}
    (empty : (Outline.blockOf element position).isVoid = true) (outline : Outline) :
    (outline.addPiece position (.element element)).blocks = outline.blocks := by
  rw [addPiece_element, addBlock, if_pos empty, blocks_noteEnding]

section Emptied

variable {source script changed : List Char} {block : Block}
  (selected : (outline source).scriptBlock? = some block) (notSelfClosed : block.ending ≠ .selfClosed)
  (plain : ¬HoldsEndTag "script".toList script)
  (wrote : withScriptText? source script = some changed)

include selected notSelfClosed plain wrote

/-- Around a script that does not last the pieces are as they were, and the element
that it is written into makes no block. -/
theorem exists_pieces_emptied (fleeting : ¬Lasts script block) :
    ∃ earlier element later, MadeBy source block earlier element later ∧
      element.name = "script" ∧
      pieces changed = earlier ++ .element (element.withBody ('\n' :: script)) :: later ∧
      ∀ position, (Outline.blockOf (element.withBody ('\n' :: script)) position).isVoid = true := by
  rcases exists_madeBy_of_scriptBlock? selected with ⟨earlier, element, later, made, named⟩
  cases wrote.symm.trans (made.withScriptText?_eq selected script)
  have ending : element.ending ≠ .selfClosed := made.ending_eq ▸ notSelfClosed
  refine ⟨earlier, element, later, made, named,
    pieces_withBody made.pieces_eq ending ?_ ?_, fun position => ?_⟩
  · rw [named]
    decide
  · rw [named]
    exact fun held => plain (held.of_cons (by decide))
  · have empty := isVoid_of_not_lasts fleeting (mem_blocks_of_scriptBlock? selected).2
    rw [made.block_eq] at empty
    exact empty

/-- Where a script that does not last is written, no block starts any more. -/
theorem start_ne_of_not_lasts (fleeting : ¬Lasts script block) {other : Block}
    (member : other ∈ (outline changed).blocks) : other.start ≠ block.start := by
  rcases exists_pieces_emptied selected notSelfClosed plain wrote fleeting with
    ⟨earlier, element, later, made, _, read, empty⟩
  rw [outline_eq, read, Outline.addPieces_append, Outline.addPieces] at member
  intro same
  rcases Outline.mem_blocks_addPieces member with old | ⟨front, further, rest, _, here, _, _⟩
  · rw [Outline.blocks_addPiece_of_isVoid (empty _)] at old
    have before := made.stop_lt_start old
    rw [← same] at before
    exact absurd other.start_le_stop (Nat.not_le_of_lt before)
  · have split : other.start.before = block.start.before ++ ('\n' :: script ++
        (element.ending.source ++ (front.flatMap Piece.source ++ further.opening))) := by
      rw [here, made.start_eq]
      simp [Outline.blockOf, Position.advance, Piece.source, Element.source, Element.withBody]
    rw [same] at split
    have nothing := List.append_cancel_left ((List.append_nil _).trans split)
    cases nothing

/-- After a script that does not last, the component has no script exactly if the
element was the only one that could make one. -/
theorem scriptBlock?_eq_none_iff_of_not_lasts (fleeting : ¬Lasts script block) :
    (outline changed).scriptBlock? = none ↔ (pieces source).countP Piece.makesScript = 1 := by
  rcases exists_pieces_emptied selected notSelfClosed plain wrote fleeting with
    ⟨earlier, element, later, made, named, read, empty⟩
  have makes : Piece.makesScript (.element element) = true := by
    have notVoid := made.notVoid
    rw [made.block_eq] at notVoid
    have notVoidAtStart : (Outline.blockOf element ⟨[]⟩).isVoid = false := notVoid
    rw [Piece.makesScript, named, notVoidAtStart]
    rfl
  have makesNone : Piece.makesScript (.element (element.withBody ('\n' :: script))) = false := by
    rw [Piece.makesScript, empty, Bool.not_true, Bool.and_false]
  rw [← Option.not_isSome_iff_eq_none, isSome_scriptBlock?_iff, read, made.pieces_eq,
    List.countP_append, List.countP_append, List.countP_cons_of_pos makes,
    List.countP_cons_of_neg (by simp [makesNone])]
  omega

end Emptied

end ScriptView.Component
