import ScriptView.Proofs.Component.Edit

/-!
# Writing a script edits one block

A component with another script has the outline of the component before, edited
in the block of the script and nowhere else. The script is put there on the
strength of one outline, and the outline of the changed text is made from a
second reading of all of it: the pieces before the block are read locally, the
block's element is read with its new body, and the pieces behind it stand where
they stood, moved.
-/

namespace ScriptView.Component

open Text

/-- The outline from which the pieces of a component start. -/
theorem outline_eq (source : List Char) :
    outline source = Outline.addPieces {} ⟨[]⟩ (pieces source) := rfl

theorem mem_blocks_of_scriptBlock? {outline : Outline} {block : Block}
    (selected : outline.scriptBlock? = some block) :
    block ∈ outline.blocks ∧ (block.kind = .script ∨ block.kind = .scriptSetup) := by
  rw [Outline.scriptBlock?] at selected
  cases setup : outline.find? .scriptSetup with
  | some found =>
      rw [setup] at selected
      change some found = some block at selected
      cases selected
      exact ⟨List.mem_of_find?_eq_some setup, .inr (by simpa using List.find?_some setup)⟩
  | none =>
      rw [setup] at selected
      change outline.find? .script = some block at selected
      exact ⟨List.mem_of_find?_eq_some selected, .inl (by simpa using List.find?_some selected)⟩

/-- A block is the one that an element makes which stands between other pieces. -/
structure MadeBy (source : List Char) (block : Block) (earlier : List Piece) (element : Element)
    (later : List Piece) : Prop where
  pieces_eq : pieces source = earlier ++ .element element :: later
  block_eq : block = Outline.blockOf element ⟨earlier.flatMap Piece.source⟩
  notVoid : block.isVoid = false

/-- Every block of an outline is made by an element. -/
theorem exists_madeBy {source : List Char} {block : Block}
    (member : block ∈ (outline source).blocks) :
    ∃ earlier element later, MadeBy source block earlier element later := by
  rcases Outline.mem_blocks_addPieces member with
    none | ⟨earlier, element, later, pieces_eq, block_eq, notVoid, _⟩
  · contradiction
  · exact ⟨earlier, element, later, pieces_eq, block_eq, notVoid⟩

namespace MadeBy

variable {source : List Char} {block : Block} {earlier later : List Piece} {element : Element}

theorem name_eq (made : MadeBy source block earlier element later)
    (kind : block.kind = .script ∨ block.kind = .scriptSetup) : element.name = "script" := by
  rw [made.block_eq] at kind
  exact BlockKind.name_eq_script_of_ofElement kind

theorem start_eq (made : MadeBy source block earlier element later) :
    block.start.before = earlier.flatMap Piece.source ++ element.opening := by
  rw [made.block_eq]
  rfl

theorem content_eq (made : MadeBy source block earlier element later) :
    block.content = element.body := by
  rw [made.block_eq]
  rfl

theorem ending_eq (made : MadeBy source block earlier element later) :
    block.ending = element.ending := by
  rw [made.block_eq]
  rfl

theorem source_eq (made : MadeBy source block earlier element later) :
    source = block.start.before ++ block.content ++
      (element.ending.source ++ later.flatMap Piece.source) := by
  rw [← flatMap_source_pieces source, made.pieces_eq, made.start_eq, made.content_eq]
  simp [Piece.source, Element.source]

theorem behind_eq (made : MadeBy source block earlier element later) :
    behind source block = element.ending.source ++ later.flatMap Piece.source := by
  rw [behind, made.source_eq]
  exact List.drop_left' rfl

/-- The changed component, put together from pieces. -/
theorem withScriptText?_eq (made : MadeBy source block earlier element later)
    (selected : (outline source).scriptBlock? = some block) (script : List Char) :
    withScriptText? source script = some (earlier.flatMap Piece.source ++
      ((element.withBody ('\n' :: script)).source ++ later.flatMap Piece.source)) := by
  rw [withScriptText?, selected, Option.map_some, made.behind_eq, made.start_eq]
  simp [Element.source, Element.withBody]

/-- An element's tag has at least one character. -/
theorem opening_ne_nil (made : MadeBy source block earlier element later) :
    element.opening ≠ [] := by
  rcases exists_readFrom made.pieces_eq with ⟨_, _, readFrom⟩
  exact readFrom.opening_ne_nil

/-- A position in the pieces before the element lies before its block. -/
theorem offset_lt_start (made : MadeBy source block earlier element later) {place : Position}
    (more : List Char) (split : earlier.flatMap Piece.source = place.before ++ more) :
    place.offset < block.start.offset := by
  apply Position.offset_lt (more ++ element.opening)
  · rw [made.start_eq, split, List.append_assoc]
  · intro nothing
    exact made.opening_ne_nil (List.append_eq_nil_iff.mp nothing).2

/-- The blocks of the pieces before the element lie before its block. -/
theorem stop_lt_start (made : MadeBy source block earlier element later) {other : Block}
    (member : other ∈ (Outline.addPieces {} ⟨[]⟩ earlier).blocks) :
    other.stop.offset < block.start.offset := by
  rcases Outline.mem_blocks_addPieces member with none | ⟨front, first, rest, rfl, rfl, _, _⟩
  · contradiction
  · apply made.offset_lt_start (first.ending.source ++ rest.flatMap Piece.source)
    simp [Outline.blockOf, Block.stop, Position.advance, Piece.source, Element.source]

/-- So do their problems. -/
theorem problem_lt_start (made : MadeBy source block earlier element later) {problem : Problem}
    (member : problem ∈ (Outline.addPieces {} ⟨[]⟩ earlier).problems) :
    problem.position.offset < block.start.offset := by
  rcases Outline.mem_problems_addPieces member with none | ⟨front, piece, rest, rfl, here⟩
  · contradiction
  · apply made.offset_lt_start (piece.source ++ rest.flatMap Piece.source)
    simp [here, Position.advance]

/-- An edit of the block leaves the outline of the pieces before it as it is. -/
theorem outline_earlier (made : MadeBy source block earlier element later)
    (content : List Char) :
    (Edit.ofBlock block content).outline (Outline.addPieces {} ⟨[]⟩ earlier) =
      Outline.addPieces {} ⟨[]⟩ earlier := by
  have fixedBlock : ∀ other ∈ (Outline.addPieces {} ⟨[]⟩ earlier).blocks,
      (Edit.ofBlock block content).block other = other := by
    intro other member
    exact Edit.block_of_lt (Nat.lt_of_le_of_lt other.start_le_stop (made.stop_lt_start member))
  have fixedProblem : ∀ problem ∈ (Outline.addPieces {} ⟨[]⟩ earlier).problems,
      (Edit.ofBlock block content).problem problem = problem := by
    intro problem member
    rw [Edit.problem, Edit.position_of_le (Nat.le_of_lt (made.problem_lt_start member))]
  rw [Edit.outline, List.map_congr_left fixedBlock, List.map_congr_left fixedProblem,
    List.map_id', List.map_id']

/-- The position behind the element lies behind the block, if anything is there. -/
theorem isBehind (made : MadeBy source block earlier element later) (content : List Char)
    (more : later ≠ []) (notSelfClosed : element.ending ≠ .selfClosed) :
    (Edit.ofBlock block content).IsBehind ⟨earlier.flatMap Piece.source ++ element.source⟩ := by
  have split : earlier.flatMap Piece.source ++ element.source =
      block.start.before ++ element.body ++ element.ending.source := by
    rw [made.start_eq, Element.source]
    simp
  rcases exists_readFrom made.pieces_eq with ⟨_, _, readFrom⟩
  have others : later.flatMap Piece.source ≠ [] := by
    intro nothing
    have alone := pieces_later made.pieces_eq
    rw [nothing, pieces_nil] at alone
    exact more alone.symm
  have ending := readFrom.ending_ne_nil others notSelfClosed
  constructor
  · apply Position.offset_lt (element.body ++ element.ending.source)
    · rw [split, List.append_assoc]
      rfl
    · intro nothing
      exact ending (List.append_eq_nil_iff.mp nothing).2
  · exact ⟨element.ending.source, by rw [split, ← made.content_eq]; rfl⟩

/-- The element with another body adds to the outline the block with another
content. -/
theorem outline_element (made : MadeBy source block earlier element later) {content : List Char}
    (notVoid : Block.isVoid { block with content } = false) :
    (Edit.ofBlock block content).outline ((Outline.addPieces {} ⟨[]⟩ earlier).addPiece
        ⟨earlier.flatMap Piece.source⟩ (.element element)) =
      (Outline.addPieces {} ⟨[]⟩ earlier).addPiece
        ⟨earlier.flatMap Piece.source⟩ (.element (element.withBody content)) := by
  have becomes : (Edit.ofBlock block content).block
      (Outline.blockOf element ⟨earlier.flatMap Piece.source⟩) =
        Outline.blockOf (element.withBody content) ⟨earlier.flatMap Piece.source⟩ := by
    rw [← made.block_eq, Edit.block_ofBlock, made.block_eq]
    rfl
  have sameVoid : Block.isVoid
      (Outline.blockOf (element.withBody content) ⟨earlier.flatMap Piece.source⟩) =
        Block.isVoid (Outline.blockOf element ⟨earlier.flatMap Piece.source⟩) := by
    rw [← becomes, ← made.block_eq, Edit.block_ofBlock, notVoid, made.notVoid]
  have less : Position.offset ⟨earlier.flatMap Piece.source⟩ < block.start.offset :=
    made.offset_lt_start [] (List.append_nil _).symm
  rw [Outline.addPiece_element, Edit.outline_addBlock _ _ _ becomes sameVoid,
    Edit.outline_noteEnding, made.outline_earlier, Edit.position_of_le (Nat.le_of_lt less)]
  rfl

/-- A component that is read with another content in the block has the edited
outline. -/
theorem outline_of_pieces_eq (made : MadeBy source block earlier element later)
    {changed content : List Char} (notSelfClosed : element.ending ≠ .selfClosed)
    (notVoid : Block.isVoid { block with content } = false)
    (read : pieces changed = earlier ++ .element (element.withBody content) :: later) :
    outline changed = (Edit.ofBlock block content).outline (outline source) := by
  rw [outline_eq, read, outline_eq, made.pieces_eq, Outline.addPieces_append,
    Outline.addPieces_append, Outline.addPieces, Outline.addPieces]
  change ((Outline.addPieces {} ⟨[]⟩ earlier).addPiece ⟨earlier.flatMap Piece.source⟩
      (.element (element.withBody content))).addPieces
        ⟨earlier.flatMap Piece.source ++ (element.withBody content).source⟩ later =
    (Edit.ofBlock block content).outline (((Outline.addPieces {} ⟨[]⟩ earlier).addPiece
      ⟨earlier.flatMap Piece.source⟩ (.element element)).addPieces
        ⟨earlier.flatMap Piece.source ++ element.source⟩ later)
  rw [← made.outline_element notVoid]
  cases more : later with
  | nil => rfl
  | cons piece others =>
      have behind := made.isBehind content (more ▸ List.cons_ne_nil piece others) notSelfClosed
      have moved : (Edit.ofBlock block content).position
          ⟨earlier.flatMap Piece.source ++ element.source⟩ =
            ⟨earlier.flatMap Piece.source ++ (element.withBody content).source⟩ := by
        rw [Edit.position_of_isBehind behind.1 element.ending.source]
        · change Position.mk (block.start.before ++ content ++ element.ending.source) = _
          rw [made.start_eq]
          simp [Element.source, Element.withBody]
        · change _ = block.start.before ++ block.content ++ element.ending.source
          rw [made.start_eq, made.content_eq]
          simp [Element.source]
      rw [behind.outline_addPieces, moved]

/-- The component with another content in a raw block has the edited outline. -/
theorem outline_withBody (made : MadeBy source block earlier element later) {content : List Char}
    (notSelfClosed : element.ending ≠ .selfClosed) (raw : element.name ≠ "template")
    (plain : ¬HoldsEndTag element.name.toList content)
    (notVoid : Block.isVoid { block with content } = false) :
    outline (earlier.flatMap Piece.source ++
        ((element.withBody content).source ++ later.flatMap Piece.source)) =
      (Edit.ofBlock block content).outline (outline source) :=
  made.outline_of_pieces_eq notSelfClosed notVoid
    (pieces_withBody made.pieces_eq notSelfClosed raw plain)

/-- The element with another body makes the block with another content. -/
theorem withBody (made : MadeBy source block earlier element later) {content : List Char}
    (notSelfClosed : element.ending ≠ .selfClosed) (raw : element.name ≠ "template")
    (plain : ¬HoldsEndTag element.name.toList content)
    (notVoid : Block.isVoid { block with content } = false) :
    MadeBy (earlier.flatMap Piece.source ++
        ((element.withBody content).source ++ later.flatMap Piece.source))
      { block with content } earlier (element.withBody content) later where
  pieces_eq := pieces_withBody made.pieces_eq notSelfClosed raw plain
  block_eq := by rw [made.block_eq]; rfl
  notVoid := notVoid

/-- Every other block lies before the block of the element or behind it. -/
theorem place_of_mem (made : MadeBy source block earlier element later) {other : Block}
    (notSelfClosed : element.ending ≠ .selfClosed) (content : List Char)
    (member : other ∈ (outline source).blocks) :
    other = block ∨ other.stop.offset < block.start.offset ∨
      (Edit.ofBlock block content).IsBehind other.start := by
  rw [outline_eq, made.pieces_eq, Outline.addPieces_append, Outline.addPieces] at member
  rcases Outline.mem_blocks_addPieces member with old | ⟨front, first, rest, eq, rfl, _, _⟩
  · rcases Outline.mem_blocks_addPiece old with older | ⟨same, isSame, rfl, _, _⟩
    · exact .inr (.inl (made.stop_lt_start older))
    · cases isSame
      exact .inl made.block_eq.symm
  · have more : later ≠ [] := by
      rw [eq]
      simp
    have behind := made.isBehind content more notSelfClosed
    exact .inr (.inr ((behind.advance _).advance _))

/-- The start and the end of every block move as the edit says. -/
theorem moves_block (made : MadeBy source block earlier element later) {other : Block}
    (notSelfClosed : element.ending ≠ .selfClosed) (content : List Char)
    (member : other ∈ (outline source).blocks) :
    (Edit.ofBlock block content).Moves other.start.offset
        ((Edit.ofBlock block content).block other).start.offset ∧
      (Edit.ofBlock block content).Moves other.stop.offset
        ((Edit.ofBlock block content).block other).stop.offset := by
  rcases made.place_of_mem notSelfClosed content member with rfl | before | behind
  · rw [Edit.block_ofBlock, Block.stop, Block.stop, Position.offset_advance,
      Position.offset_advance]
    constructor
    · exact .inl ⟨Nat.le_refl _, rfl⟩
    · exact .inr ⟨Nat.le_refl _, Nat.add_right_comm _ _ _⟩
  · have less := Nat.lt_of_le_of_lt other.start_le_stop before
    rw [Edit.block_of_lt less]
    exact ⟨.inl ⟨Nat.le_of_lt less, rfl⟩, .inl ⟨Nat.le_of_lt before, rfl⟩⟩
  · rw [Edit.block_of_ne (Nat.ne_of_gt behind.1)]
    constructor
    · exact behind.moves
    · have moves := (behind.advance other.content).moves
      rw [behind.position_advance] at moves
      exact moves

/-- The edit changes the content of the element's block only. -/
theorem block_edit (made : MadeBy source block earlier element later) {other : Block}
    (notSelfClosed : element.ending ≠ .selfClosed) (content : List Char)
    (member : other ∈ (outline source).blocks) :
    (Edit.ofBlock block content).block other = if other = block then { block with content }
      else { other with start := (Edit.ofBlock block content).position other.start } := by
  split
  · next same =>
    subst same
    exact Edit.block_ofBlock _ content
  · next differs =>
    apply Edit.block_of_ne
    rcases made.place_of_mem notSelfClosed content member with same | before | behind
    · exact absurd same differs
    · exact Nat.ne_of_lt (Nat.lt_of_le_of_lt other.start_le_stop before)
    · exact Nat.ne_of_gt behind.1

/-- Every problem lies before the block of the element or behind it. -/
theorem place_of_problem (made : MadeBy source block earlier element later) {problem : Problem}
    (notSelfClosed : element.ending ≠ .selfClosed) (content : List Char)
    (member : problem ∈ (outline source).problems) :
    problem.position.offset < block.start.offset ∨
      (Edit.ofBlock block content).IsBehind problem.position := by
  rw [outline_eq, made.pieces_eq, Outline.addPieces_append, Outline.addPieces] at member
  rcases Outline.mem_problems_addPieces member with old | ⟨front, piece, rest, eq, here⟩
  · rcases Outline.mem_problems_addPiece old with older | here
    · exact .inl (made.problem_lt_start older)
    · refine .inl (made.offset_lt_start [] ?_)
      simp [here, Position.advance]
  · have more : later ≠ [] := by
      rw [eq]
      simp
    have behind := made.isBehind content more notSelfClosed
    rw [here]
    exact .inr (behind.advance _)

end MadeBy

/-- The selected block is made by a script element. -/
theorem exists_madeBy_of_scriptBlock? {source : List Char} {block : Block}
    (selected : (outline source).scriptBlock? = some block) :
    ∃ earlier element later, MadeBy source block earlier element later ∧
      element.name = "script" := by
  rcases mem_blocks_of_scriptBlock? selected with ⟨member, kind⟩
  rcases exists_madeBy member with ⟨earlier, element, later, made⟩
  exact ⟨earlier, element, later, made, made.name_eq kind⟩

/-! ## Scripts that may be written -/

/-- A script that a block can take: it does not hold the end tag of the block,
and it is not blank, unless the block names a file. -/
structure Fits (script : List Char) (block : Block) : Prop where
  plain : ¬HoldsEndTag "script".toList script
  written : block.attributes.has "src" = true ∨ ∃ c ∈ script, isBlank c = false

namespace Fits

variable {source script : List Char} {block : Block}

/-- The line feed in front of a script starts no end tag. -/
theorem plain_lineFeed (fits : Fits script block) :
    ¬HoldsEndTag "script".toList ('\n' :: script) := fun held =>
  fits.plain (held.of_cons (by decide))

/-- A block with the script is not left out. -/
theorem notVoid (fits : Fits script block) :
    Block.isVoid { block with content := '\n' :: script } = false := by
  rcases fits.written with names | ⟨c, member, notBlank⟩
  · simp [Block.isVoid, names]
  · have notAll : ('\n' :: script).all isBlank = false := by
      rw [List.all_eq_false]
      exact ⟨c, List.mem_cons_of_mem _ member, by simp [notBlank]⟩
    simp only [Block.isVoid, notAll, Bool.and_false, Bool.false_and]

/-- The component with a script that fits is made of the same pieces around the
changed element. -/
theorem exists_changed (fits : Fits script block)
    (selected : (outline source).scriptBlock? = some block)
    (notSelfClosed : block.ending ≠ .selfClosed) :
    ∃ changed earlier element later, withScriptText? source script = some changed ∧
      MadeBy source block earlier element later ∧ element.ending ≠ .selfClosed ∧
      MadeBy changed { block with content := '\n' :: script } earlier
        (element.withBody ('\n' :: script)) later ∧
      outline changed = (Edit.ofBlock block ('\n' :: script)).outline (outline source) := by
  rcases exists_madeBy_of_scriptBlock? selected with ⟨earlier, element, later, made, named⟩
  have ending : element.ending ≠ .selfClosed := made.ending_eq ▸ notSelfClosed
  have raw : element.name ≠ "template" := by
    rw [named]
    decide
  have plain : ¬HoldsEndTag element.name.toList ('\n' :: script) := by
    rw [named]
    exact fits.plain_lineFeed
  exact ⟨_, earlier, element, later, made.withScriptText?_eq selected script, made, ending,
    made.withBody ending raw plain fits.notVoid, made.outline_withBody ending raw plain fits.notVoid⟩

end Fits

/-- The changed component selects the block with the new content. -/
theorem scriptBlock?_of_outline_eq {source changed content : List Char} {block : Block}
    (selected : (outline source).scriptBlock? = some block)
    (edited : outline changed = (Edit.ofBlock block content).outline (outline source)) :
    (outline changed).scriptBlock? = some { block with content } := by
  rw [edited, Edit.scriptBlock?_outline, selected, Option.map_some, Edit.block_ofBlock]

/-- Writing a script over another one that was written is the same as writing it
over the original. -/
theorem withScriptText?_withScriptText? {source script changed : List Char} {block : Block}
    (selected : (outline source).scriptBlock? = some block)
    (notSelfClosed : block.ending ≠ .selfClosed) (fits : Fits script block)
    (wrote : withScriptText? source script = some changed) (other : List Char) :
    withScriptText? changed other = withScriptText? source other := by
  rcases fits.exists_changed selected notSelfClosed with
    ⟨_, earlier, element, later, wroteToo, made, _, madeToo, edited⟩
  cases wrote.symm.trans wroteToo
  rw [madeToo.withScriptText?_eq (scriptBlock?_of_outline_eq selected edited),
    made.withScriptText?_eq selected]
  rfl

/-- Writing a script and reading it back. -/
theorem scriptText?_withScriptText? {source script changed : List Char} {block : Block}
    (selected : (outline source).scriptBlock? = some block)
    (notSelfClosed : block.ending ≠ .selfClosed) (fits : Fits script block)
    (wrote : withScriptText? source script = some changed) : scriptText? changed = some script := by
  rcases fits.exists_changed selected notSelfClosed with ⟨_, _, _, _, wroteToo, _, _, _, edited⟩
  cases wrote.symm.trans wroteToo
  rw [scriptText?, scriptBlock?_of_outline_eq selected edited]
  rfl

section Documents

variable {document script changed : String} {block : Block}

theorem exists_withScript? (selected : (outline document.toList).scriptBlock? = some block)
    (script : String) : ∃ changed, withScript? document script = some changed := by
  rw [withScript?, withScriptText?, selected]
  exact ⟨_, rfl⟩

theorem exists_script? (selected : (outline document.toList).scriptBlock? = some block) :
    ∃ script, script? document = some script := by
  rw [script?, scriptText?, selected]
  exact ⟨_, rfl⟩

theorem withScript?_withScript? (selected : (outline document.toList).scriptBlock? = some block)
    (notSelfClosed : block.ending ≠ .selfClosed) (fits : Fits script.toList block)
    (wrote : withScript? document script = some changed) (other : String) :
    withScript? changed other = withScript? document other := by
  rw [withScript?, Option.map_eq_some_iff] at wrote
  rcases wrote with ⟨text, wrote, rfl⟩
  rw [withScript?, withScript?, String.toList_ofList,
    withScriptText?_withScriptText? selected notSelfClosed fits wrote]

theorem script?_withScript? (selected : (outline document.toList).scriptBlock? = some block)
    (notSelfClosed : block.ending ≠ .selfClosed) (fits : Fits script.toList block)
    (wrote : withScript? document script = some changed) : script? changed = some script := by
  rw [withScript?, Option.map_eq_some_iff] at wrote
  rcases wrote with ⟨text, wrote, rfl⟩
  rw [script?, String.toList_ofList, scriptText?_withScriptText? selected notSelfClosed fits wrote,
    Option.map_some, String.ofList_toList]

end Documents

/-- Writing a script that fits is an edit of one block, which stays the selected
one, and the script read back is the one written. -/
theorem replaced_withScript? {document script : String} {block : Block}
    (selected : (outline document.toList).scriptBlock? = some block)
    (notSelfClosed : block.ending ≠ .selfClosed) (fits : Fits script.toList block) :
    ∃ changed, withScript? document script = some changed ∧
      Outline.Replaced block ('\n' :: script.toList) (outline document.toList)
        (outline changed.toList) ∧
      (outline changed.toList).scriptBlock? =
        some { block with content := '\n' :: script.toList } ∧
      script? changed = some script := by
  rcases fits.exists_changed selected notSelfClosed with
    ⟨changed, earlier, element, later, wrote, made, ending, _, edited⟩
  have wroteDocument : withScript? document script = some (String.ofList changed) := by
    rw [withScript?, wrote, Option.map_some]
  refine ⟨String.ofList changed, wroteDocument, ?_⟩
  rw [String.toList_ofList]
  refine ⟨?_, scriptBlock?_of_outline_eq selected edited,
    script?_withScript? selected notSelfClosed fits wroteDocument⟩
  constructor
  · exact congrArg Outline.blocks edited
  · exact congrArg Outline.problems edited
  · intro other member
    exact made.block_edit ending _ member
  · intro other member
    exact (made.moves_block ending _ member).1
  · intro other member
    exact (made.moves_block ending _ member).2
  · intro problem member
    rcases made.place_of_problem ending ('\n' :: script.toList) member with before | behind
    · exact Edit.moves_of_le (Nat.le_of_lt before)
    · exact behind.moves

/-- A plain script between two other blocks, the second of which lacks its end
tag. -/
theorem replaced_withScript?_between :
    ∃ block changed,
      (outline "<i18n>a</i18n><script>b</script><style>c".toList).scriptBlock? = some block ∧
      block.ending ≠ .selfClosed ∧ Fits "let d".toList block ∧
      withScript? "<i18n>a</i18n><script>b</script><style>c" "let d" = some changed ∧
      Outline.Replaced block "\nlet d".toList
        (outline "<i18n>a</i18n><script>b</script><style>c".toList) (outline changed.toList) ∧
      (outline changed.toList).scriptBlock? = some { block with content := "\nlet d".toList } ∧
      script? changed = some "let d" := by
  have selected :
      (outline "<i18n>a</i18n><script>b</script><style>c".toList).scriptBlock? =
        some ⟨.script, [], ⟨"<i18n>a</i18n><script>".toList⟩, ['b'],
          .endTag "</script>".toList⟩ := by
    decide +kernel
  have fits : Fits "let d".toList ⟨.script, [], ⟨"<i18n>a</i18n><script>".toList⟩, ['b'],
      .endTag "</script>".toList⟩ :=
    ⟨by decide +kernel, .inr ⟨'d', by decide, by decide⟩⟩
  rcases replaced_withScript? selected (by decide) fits with ⟨changed, replaced⟩
  exact ⟨_, changed, selected, by decide, fits, replaced⟩

end ScriptView.Component
