import ScriptView.Proofs.Component.Emptied
import ScriptView.Proofs.Component.Grammar.Item
import ScriptView.Proofs.Component.Structure

/-!
# Saving a script as it was read

A document is saved when its script is read and written back as it is. What comes
out is the document itself if the block starts with a line feed, and the document
with one line feed more if it does not (`saved?_eq_self_iff`). The line feed is
then the first character of the block, and saving again changes nothing, unless
the element closes itself: such an element has no room for a body, the line feed
stands behind it, and every save puts in another one (`saved?_settles_iff`).
-/

namespace ScriptView

namespace Text

/-- A document with a text put in at an offset. -/
def insertedAt (document : String) (offset : Nat) (text : String) : String :=
  slice document 0 offset ++ text ++ slice document offset document.utf8ByteSize

theorem insertedAt_of_eq_append {document : String} {front back : List Char}
    (whole : document.toList = front ++ back) (text : String) :
    insertedAt document (byteLength front) text =
      String.ofList (front ++ (text.toList ++ back)) := by
  have all : document.toList = front ++ (back ++ []) := by
    rw [whole, List.append_nil]
  have first : slice document 0 (byteLength front) = String.ofList front := by
    have sliced := @slice_of_eq_append document [] front back whole
    rw [byteLength_nil, Nat.zero_add] at sliced
    exact sliced
  have last : slice document (byteLength front) document.utf8ByteSize = String.ofList back := by
    rw [utf8ByteSize_eq_byteLength, whole, byteLength_append]
    exact slice_of_eq_append all
  rw [insertedAt, first, last, ← String.toList_inj]
  simp

end Text

namespace Component

open Text

/-- A document in which the script that is read from it is written back. -/
def saved? (document : String) : Option String :=
  (script? document).bind (withScript? document)

/-- A document that is saved a number of times. -/
def savedTimes? : Nat → String → Option String
  | 0, document => some document
  | times + 1, document => (saved? document).bind (savedTimes? times)

/-! ## One save -/

theorem dropLineFeed_of_head? {text : List Char} (first : text.head? ≠ some '\n') :
    dropLineFeed text = text := by
  rw [dropLineFeed.eq_def]
  split
  · exact absurd rfl first
  · rfl

theorem cons_dropLineFeed {text : List Char} (first : text.head? = some '\n') :
    '\n' :: dropLineFeed text = text := by
  cases text with
  | nil => cases first
  | cons c rest =>
      cases first
      rfl

section Once

variable {source : List Char} {document : String} {block : Block}

/-- A component is the text before the selected block, the content of the block
and the text behind it. -/
theorem source_eq_of_scriptBlock? (selected : (outline source).scriptBlock? = some block) :
    source = block.start.before ++ (block.content ++ behind source block) := by
  rcases exists_madeBy_of_scriptBlock? selected with ⟨_, _, _, made, _⟩
  rw [made.behind_eq, ← List.append_assoc]
  exact made.source_eq

theorem saved?_eq (selected : (outline document.toList).scriptBlock? = some block) :
    saved? document = some (String.ofList (block.start.before ++
      '\n' :: (dropLineFeed block.content ++ behind document.toList block))) := by
  rw [saved?, script?, scriptText?, selected]
  simp [withScript?, withScriptText?, selected]

/-- A save of a block that starts with a line feed changes nothing. -/
theorem saved?_eq_self (selected : (outline document.toList).scriptBlock? = some block)
    (first : block.content.head? = some '\n') : saved? document = some document := by
  rw [saved?_eq selected, ← List.cons_append, cons_dropLineFeed first,
    ← source_eq_of_scriptBlock? selected, String.ofList_toList]

theorem saved?_of_head? (selected : (outline document.toList).scriptBlock? = some block)
    (first : block.content.head? ≠ some '\n') :
    saved? document = some (String.ofList (block.start.before ++
      '\n' :: (block.content ++ behind document.toList block))) := by
  rw [saved?_eq selected, dropLineFeed_of_head? first]

/-- Any other save adds a line feed. -/
theorem head?_of_saved?_eq_self (selected : (outline document.toList).scriptBlock? = some block)
    (same : saved? document = some document) : block.content.head? = some '\n' := by
  apply Classical.byContradiction
  intro first
  rw [saved?_of_head? selected first, Option.some.injEq, ← String.toList_inj,
    String.toList_ofList] at same
  have longer := congrArg List.length (same.trans (source_eq_of_scriptBlock? selected))
  simp at longer

/-- A save changes nothing exactly if the block starts with a line feed. Otherwise
it puts in one line feed, where the block starts. -/
theorem saved?_eq_self_iff (selected : (outline document.toList).scriptBlock? = some block) :
    (saved? document = some document ↔ block.content.head? = some '\n') ∧
      (block.content.head? ≠ some '\n' →
        saved? document = some (insertedAt document block.start.offset "\n")) := by
  constructor
  · exact ⟨head?_of_saved?_eq_self selected, saved?_eq_self selected⟩
  · intro first
    have whole := source_eq_of_scriptBlock? selected
    rw [saved?_of_head? selected first]
    exact congrArg some (insertedAt_of_eq_append whole "\n").symm

end Once

/-- A script on the line of its tag, behind text of several bytes a character. -/
theorem saved?_eq_self_iff_onTagLine :
    ∃ block, (outline "é<script>a</script>".toList).scriptBlock? = some block ∧
      block.content.head? ≠ some '\n' ∧ saved? "é<script>a</script>" ≠ some "é<script>a</script>" ∧
      saved? "é<script>a</script>" =
        some (insertedAt "é<script>a</script>" block.start.offset "\n") := by
  have selected : (outline "é<script>a</script>".toList).scriptBlock? =
      some ⟨.script, [], ⟨"é<script>".toList⟩, ['a'], .endTag "</script>".toList⟩ := by
    decide +kernel
  have exact := saved?_eq_self_iff selected
  exact ⟨_, selected, by decide, fun same => absurd (exact.1.mp same) (by decide),
    exact.2 (by decide)⟩

/-! ## Further saves -/

namespace Outline

variable {outline other : Outline} {position place : Position} {block : Block}

/-- The kinds of the blocks of an outline. -/
def kinds (outline : Outline) : List BlockKind :=
  outline.blocks.map (·.kind)

theorem conflict?_eq_of_kinds_eq (same : outline.kinds = other.kinds) (kind : BlockKind) :
    outline.conflict? kind = other.conflict? kind := by
  have listed : ∀ outline : Outline,
      outline.blocks.any (·.kind == kind) = outline.kinds.any (· == kind) := by
    intro outline
    rw [kinds, List.any_map]
    rfl
  rw [conflict?, conflict?, listed, listed, same]

theorem kinds_addBlock {first second : Block} (same : outline.kinds = other.kinds)
    (sameKind : first.kind = second.kind) (sameVoid : first.isVoid = second.isVoid) :
    (outline.addBlock first position).kinds = (other.addBlock second place).kinds := by
  rw [addBlock, addBlock, sameVoid, sameKind, conflict?_eq_of_kinds_eq same]
  split
  · exact same
  · split
    · exact same
    · change List.map _ (_ ++ [first]) = List.map _ (_ ++ [second])
      rw [List.map_append, List.map_append, List.map_singleton, List.map_singleton, sameKind]
      exact congrArg (· ++ _) same

/-- Of which kinds the blocks are does not depend on where the pieces stand. -/
theorem kinds_addPieces (same : outline.kinds = other.kinds) (pieces : List Piece) :
    (outline.addPieces position pieces).kinds = (other.addPieces place pieces).kinds := by
  induction pieces generalizing outline other position place with
  | nil => exact same
  | cons piece pieces ih =>
      apply ih
      cases piece with
      | text | comment | endTag | openEndTag | openComment | openTag => exact same
      | element element =>
          rw [addPiece_element, addPiece_element]
          apply kinds_addBlock
          · rw [kinds, kinds, blocks_noteEnding, blocks_noteEnding]
            exact same
          · rfl
          · rfl

theorem isSome_find?_iff (kind : BlockKind) :
    (outline.find? kind).isSome = true ↔ kind ∈ outline.kinds := by
  simp [find?, kinds, List.find?_isSome]

/-- Further pieces leave the first block of a kind that is listed. -/
theorem find?_addPieces (listed : block ∈ outline.blocks) (pieces : List Piece) :
    (outline.addPieces position pieces).find? block.kind = outline.find? block.kind := by
  rcases isPrefix_blocks_addPieces pieces with ⟨more, split⟩
  have found : (outline.blocks.find? (·.kind == block.kind)).isSome = true := by
    rw [List.find?_isSome]
    exact ⟨block, listed, beq_self_eq_true _⟩
  rw [find?, find?, ← split, List.find?_append, Option.or_of_isSome found]

/-- A selected block that is listed stays selected when the pieces behind it stand
at another place. -/
theorem scriptBlock?_addPieces {pieces : List Piece} (listed : block ∈ outline.blocks)
    (selected : (outline.addPieces position pieces).scriptBlock? = some block) :
    (outline.addPieces place pieces).scriptBlock? = some block := by
  have kept : (outline.addPieces place pieces).find? block.kind =
      (outline.addPieces position pieces).find? block.kind := by
    rw [find?_addPieces listed, find?_addPieces listed]
  rw [scriptBlock?] at selected ⊢
  cases setup : (outline.addPieces position pieces).find? .scriptSetup with
  | some found =>
      rw [setup] at selected
      cases selected
      have kind : block.kind = .scriptSetup := by simpa using List.find?_some setup
      rw [kind, setup] at kept
      rw [kept]
      rfl
  | none =>
      rw [setup] at selected
      change (outline.addPieces position pieces).find? .script = some block at selected
      have kind : block.kind = .script := by simpa using List.find?_some selected
      -- Whether a setup script is in front depends on the kinds alone.
      have setupToo : (outline.addPieces place pieces).find? .scriptSetup = none := by
        rw [← Option.not_isSome_iff_eq_none, isSome_find?_iff, kinds_addPieces rfl,
          ← isSome_find?_iff, setup]
        exact Bool.false_ne_true
      rw [kind, selected] at kept
      rw [setupToo, kept]
      rfl

end Outline

/-- Pieces after the element of a block stand behind the block, so the block is
listed before they are read. -/
theorem MadeBy.mem_blocks_addPiece {source : List Char} {block : Block} {earlier later : List Piece}
    {element : Element} (made : MadeBy source block earlier element later)
    (member : block ∈ (outline source).blocks) :
    block ∈ ((Outline.addPieces {} ⟨[]⟩ earlier).addPiece ⟨earlier.flatMap Piece.source⟩
      (.element element)).blocks := by
  rw [outline_eq, made.pieces_eq, Outline.addPieces_append, Outline.addPieces] at member
  rcases Outline.mem_blocks_addPieces member with listed | ⟨front, further, rest, eq, here, _, _⟩
  · exact listed
  · have readFurther : pieces source =
        (earlier ++ .element element :: front) ++ .element further :: rest := by
      rw [made.pieces_eq, eq, List.append_assoc, List.cons_append]
    rcases exists_readFrom readFurther with ⟨_, _, read⟩
    have start := made.start_eq
    rw [here] at start
    have split : earlier.flatMap Piece.source ++ element.opening ++ (element.body ++
        (element.ending.source ++ (front.flatMap Piece.source ++ further.opening))) =
          earlier.flatMap Piece.source ++ element.opening ++ [] := by
      simpa [Outline.blockOf, Position.advance, Piece.source, Element.source] using start
    have nothing := List.append_cancel_left split
    simp [read.opening_ne_nil] at nothing

section Further

variable {source : List Char} {document : String} {block : Block}

theorem isVoid_cons_lineFeed (block : Block) :
    Block.isVoid { block with content := '\n' :: block.content } = block.isVoid := by
  rw [Block.isVoid, Block.isVoid, List.all_cons]
  rfl

/-- A line feed at the start of the selected block is read as a part of it. -/
theorem scriptBlock?_cons_lineFeed (selected : (outline source).scriptBlock? = some block)
    (notSelfClosed : block.ending ≠ .selfClosed) :
    (outline (block.start.before ++ '\n' :: (block.content ++ behind source block))).scriptBlock? =
      some { block with content := '\n' :: block.content } := by
  rcases exists_madeBy_of_scriptBlock? selected with ⟨earlier, element, later, made, named⟩
  rcases exists_readFrom made.pieces_eq with ⟨_, _, readFrom⟩
  have ending : element.ending ≠ .selfClosed := made.ending_eq ▸ notSelfClosed
  have raw : element.name.toList ≠ templateName := by
    rw [named]
    decide
  have ends : element.ending.Ends element.name.toList element.tag ('\n' :: element.body) _ :=
    readFrom.ends_name.cons ending raw (by decide)
  have read := pieces_of_ends made.pieces_eq ends
  rw [pieces_later made.pieces_eq, ← made.content_eq] at read
  have notVoid := (isVoid_cons_lineFeed block).trans made.notVoid
  have changed : earlier.flatMap Piece.source ++
      ((element.withBody ('\n' :: block.content)).source ++ later.flatMap Piece.source) =
        block.start.before ++ '\n' :: (block.content ++ behind source block) := by
    rw [made.behind_eq, made.start_eq]
    simp [Element.source, Element.withBody]
  rw [changed] at read
  exact scriptBlock?_of_outline_eq selected (made.outline_of_pieces_eq ending notVoid read)

theorem content_of_selfClosed (selected : (outline source).scriptBlock? = some block)
    (selfClosed : block.ending = .selfClosed) : block.content = [] := by
  rcases exists_madeBy_of_scriptBlock? selected with ⟨_, _, _, made, _⟩
  rcases exists_readFrom made.pieces_eq with ⟨_, _, readFrom⟩
  have ends := readFrom.ends
  rw [made.ending_eq.symm.trans selfClosed] at ends
  exact made.content_eq.trans ends.2

/-- A line feed behind an element that closes itself leaves its block as it is. -/
theorem scriptBlock?_selfClosed (selected : (outline source).scriptBlock? = some block)
    (selfClosed : block.ending = .selfClosed) :
    (outline (block.start.before ++ '\n' :: behind source block)).scriptBlock? = some block := by
  have empty := content_of_selfClosed selected selfClosed
  have member := (mem_blocks_of_scriptBlock? selected).1
  rcases exists_madeBy_of_scriptBlock? selected with ⟨earlier, element, later, made, _⟩
  rcases exists_readFrom made.pieces_eq with ⟨_, _, readFrom⟩
  have ending : element.ending = .selfClosed := made.ending_eq.symm.trans selfClosed
  have ends := readFrom.ends_name
  rw [ending] at ends
  have endsHere : element.ending.Ends element.name.toList element.tag element.body
      ('\n' :: later.flatMap Piece.source) := by
    rw [ending]
    exact ends
  have read : pieces (earlier.flatMap Piece.source ++
      (element.source ++ '\n' :: later.flatMap Piece.source)) = _ :=
    pieces_of_ends made.pieces_eq endsHere
  have changed : earlier.flatMap Piece.source ++
      (element.source ++ '\n' :: later.flatMap Piece.source) =
        block.start.before ++ '\n' :: behind source block := by
    rw [made.content_eq] at empty
    rw [Element.source, made.behind_eq, made.start_eq, ending, empty]
    simp [Ending.source]
  rw [← changed, outline_eq, read, Outline.addPieces_append, Outline.addPieces]
  -- The line feed is text in front of the later pieces and only moves them.
  change (Outline.addText _ _ ('\n' :: later.flatMap Piece.source)).scriptBlock? = _
  rw [Outline.addText_of_ne (by decide), Outline.addText, pieces_later made.pieces_eq]
  rw [outline_eq, made.pieces_eq, Outline.addPieces_append, Outline.addPieces] at selected
  exact Outline.scriptBlock?_addPieces (made.mem_blocks_addPiece member) selected

theorem savedTimes?_of_eq_self (settled : saved? document = some document) (times : Nat) :
    savedTimes? times document = some document := by
  induction times with
  | zero => rfl
  | succ times ih => rw [savedTimes?, settled, Option.bind_some, ih]

/-- The document that a first save leaves is left as it is by a second one, unless
the element of the script closes itself. -/
theorem exists_settled (selected : (outline document.toList).scriptBlock? = some block)
    (notSelfClosed : block.ending ≠ .selfClosed) :
    ∃ first next, saved? document = some first ∧
      (outline first.toList).scriptBlock? = some next ∧ saved? first = some first := by
  by_cases lineFeed : block.content.head? = some '\n'
  · have unchanged := saved?_eq_self selected lineFeed
    exact ⟨document, block, unchanged, selected, unchanged⟩
  · have selectedNext := scriptBlock?_cons_lineFeed selected notSelfClosed
    rw [← String.toList_ofList (l := _ ++ _)] at selectedNext
    exact ⟨_, _, saved?_of_head? selected lineFeed, selectedNext, saved?_eq_self selectedNext rfl⟩

/-- A save of a block that closes itself puts in a line feed behind it and leaves
the block selected. -/
theorem saved?_selfClosed (selected : (outline document.toList).scriptBlock? = some block)
    (selfClosed : block.ending = .selfClosed) :
    ∃ first, saved? document = some first ∧ (outline first.toList).scriptBlock? = some block ∧
      behind first.toList block = '\n' :: behind document.toList block ∧
      saved? first ≠ some first := by
  have empty := content_of_selfClosed selected selfClosed
  have noLineFeed : block.content.head? ≠ some '\n' := by
    rw [empty]
    decide
  have step := saved?_of_head? selected noLineFeed
  rw [empty, List.nil_append] at step
  have selectedNext := scriptBlock?_selfClosed selected selfClosed
  rw [← String.toList_ofList (l := _ ++ _)] at selectedNext
  refine ⟨_, step, selectedNext, ?_, ?_⟩
  · rw [String.toList_ofList, behind, Block.stop, empty, Position.advance_nil]
    exact List.drop_left' rfl
  · intro settled
    exact noLineFeed (head?_of_saved?_eq_self selectedNext settled)

/-- Every save of a block that closes itself puts in another line feed. -/
theorem savedTimes?_selfClosed (selected : (outline document.toList).scriptBlock? = some block)
    (selfClosed : block.ending = .selfClosed) (times : Nat) :
    savedTimes? times document = some (String.ofList (block.start.before ++
      (List.replicate times '\n' ++ behind document.toList block))) := by
  induction times generalizing document with
  | zero =>
      have whole := source_eq_of_scriptBlock? selected
      rw [content_of_selfClosed selected selfClosed, List.nil_append] at whole
      rw [savedTimes?, List.replicate_zero, List.nil_append, ← whole, String.ofList_toList]
  | succ times ih =>
      rcases saved?_selfClosed selected selfClosed with ⟨first, step, selectedNext, left, _⟩
      rw [savedTimes?, step, Option.bind_some, ih selectedNext, left, List.replicate_succ',
        List.append_assoc, List.singleton_append]

/-- After one save there is still a script. A further save changes nothing exactly
if the element of the script does not close itself, and then no later one does;
otherwise every save puts in another line feed. -/
theorem saved?_settles_iff (selected : (outline document.toList).scriptBlock? = some block) :
    ∃ first, saved? document = some first ∧
      (outline first.toList).scriptBlock?.isSome = true ∧
      (saved? first = some first ↔ block.ending ≠ .selfClosed) ∧
      (block.ending ≠ .selfClosed → ∀ times, savedTimes? (times + 1) document = some first) ∧
      (block.ending = .selfClosed → ∀ times, savedTimes? times document =
        some (insertedAt document block.start.offset
          (String.ofList (List.replicate times '\n')))) := by
  by_cases selfClosed : block.ending = .selfClosed
  · rcases saved?_selfClosed selected selfClosed with ⟨first, step, selectedNext, _, changes⟩
    have whole := source_eq_of_scriptBlock? selected
    rw [content_of_selfClosed selected selfClosed, List.nil_append] at whole
    refine ⟨first, step, Option.isSome_of_eq_some selectedNext, ?_, ?_, ?_⟩
    · exact iff_of_false changes (not_not_intro selfClosed)
    · intro notSelfClosed
      contradiction
    · intro _ times
      rw [savedTimes?_selfClosed selected selfClosed, Position.offset,
        insertedAt_of_eq_append whole, String.toList_ofList]
  · rcases exists_settled selected selfClosed with ⟨first, next, step, selectedNext, settled⟩
    refine ⟨first, step, Option.isSome_of_eq_some selectedNext, ?_, ?_, ?_⟩
    · exact iff_of_true settled selfClosed
    · intro _ times
      rw [savedTimes?, step, Option.bind_some, savedTimes?_of_eq_self settled]
    · intro closes
      contradiction

end Further

/-- A script without an end tag, which a first save puts on a line of its own. -/
theorem saved?_settles_iff_unclosed :
    ∃ block first, (outline "<script>a".toList).scriptBlock? = some block ∧
      block.ending ≠ .selfClosed ∧ saved? "<script>a" = some first ∧ first ≠ "<script>a" ∧
      (outline first.toList).scriptBlock?.isSome = true ∧ saved? first = some first ∧
      ∀ times, savedTimes? (times + 1) "<script>a" = some first := by
  have selected : (outline "<script>a".toList).scriptBlock? =
      some ⟨.script, [], ⟨"<script>".toList⟩, ['a'], .missing⟩ := by
    decide +kernel
  rcases saved?_settles_iff selected with ⟨first, step, isSome, settled, always, _⟩
  have changes : first ≠ "<script>a" := by
    intro same
    rw [same] at step
    exact absurd (head?_of_saved?_eq_self selected step) (by decide)
  exact ⟨_, first, selected, by decide, step, changes, isSome, settled.mpr (by decide),
    always (by decide)⟩

/-- A script that closes itself grows with every save. -/
theorem grows_selfClosed :
    (outline "<script src=\"./a.ts\"/>".toList).scriptBlock?.isSome = true ∧
      saved? "<script src=\"./a.ts\"/>" = some "<script src=\"./a.ts\"/>\n" ∧
      saved? "<script src=\"./a.ts\"/>\n" = some "<script src=\"./a.ts\"/>\n\n" := by
  decide +kernel

end Component

end ScriptView
