import Mathlib.Data.String.Basic
import ScriptView.Proofs.Component.Slots

/-!
# The block structure of a document

Where the blocks of an outline lie in the document that it is made of. Offsets
count the bytes of the document in UTF-8, and every text between two of them is
read off the document itself. The main statement, `wellStructured_outline`, is
about all documents, those with unfinished tags and comments included.
-/

namespace ScriptView

namespace Text

/-- The part of a document between two offsets. -/
def slice (document : String) (start stop : Nat) : String :=
  String.Pos.Raw.extract document ⟨start⟩ ⟨stop⟩

/-- An offset lies in a document and not within a character. -/
def IsBoundary (document : String) (offset : Nat) : Prop :=
  String.Pos.Raw.IsValid document ⟨offset⟩

variable {document : String} {front mid back : List Char}

theorem utf8Len_eq_byteLength (text : List Char) : String.utf8Len text = byteLength text := by
  induction text with
  | nil => rfl
  | cons c rest ih => rw [String.utf8Len_cons, byteLength_cons, ih, Nat.add_comm]

theorem utf8ByteSize_eq_byteLength (document : String) :
    document.utf8ByteSize = byteLength document.toList := by
  rw [← utf8Len_eq_byteLength, ← String.utf8ByteSize_ofList, String.ofList_toList]

/-- The slice behind a front part of a document. -/
theorem slice_of_eq_append (whole : document.toList = front ++ (mid ++ back)) :
    slice document (byteLength front) (byteLength front + byteLength mid) = String.ofList mid := by
  rw [slice, ← String.ofList_toList (s := document), whole, ← List.append_assoc,
    ← utf8Len_eq_byteLength, ← utf8Len_eq_byteLength]
  exact String.extract_of_valid front mid back

theorem isBoundary_of_eq_append (whole : document.toList = front ++ back) :
    IsBoundary document (byteLength front) := by
  apply String.Pos.Raw.isValid_iff_exists_append.mpr
  refine ⟨String.ofList front, String.ofList back, ?_, ?_⟩
  · rw [← String.ofList_append, ← whole, String.ofList_toList]
  · rw [String.Pos.Raw.ext_iff]
    simp [← utf8Len_eq_byteLength]

end Text

namespace Component

open Text

/-! ## Tags around a block -/

namespace Element.ReadFrom

/-- What stands right before the body is the end of the opening tag. -/
theorem exists_opening_close {element : Element} {text rest : List Char}
    (read : element.ReadFrom text rest) : ∃ start, element.opening = start ++ element.tag.close := by
  rcases OpeningTag.scan?_eq_some read.scanned with ⟨front, closing⟩
  have split := List.take_append_drop (nameAt text).length text
  rw [closing, ← List.append_assoc] at split
  have whole := read.whole
  rw [← split, ← List.cons_append, ← List.cons_append] at whole
  refine ⟨'<' :: (text.take (nameAt text).length ++ front), ?_⟩
  rw [← List.append_cancel_right whole]
  simp

end Element.ReadFrom

namespace BlockKind

/-- The name of the elements that make blocks of a kind. -/
def name : BlockKind → String
  | .template => "template"
  | .script | .scriptSetup => "script"
  | .style => "style"
  | .custom name => name

@[simp] theorem name_ofElement (name : String) (attributes : Attributes) :
    (ofElement name attributes).name = name := by
  rw [ofElement.eq_def]
  split
  · rfl
  · split <;> rfl
  · rfl
  · rfl

end BlockKind

/-! ## Blocks in the document -/

/-- What stands behind a block in a document: nothing, the end tag of its element
or, if the opening tag closes itself, any text. -/
def Block.ClosedIn (block : Block) (document : String) : Prop :=
  block.stop.offset = document.utf8ByteSize ∨
    slice document block.stop.offset
        (block.stop.offset + ("</" ++ block.kind.name).utf8ByteSize) = "</" ++ block.kind.name ∨
    block.ending = .selfClosed ∧ block.start.offset = block.stop.offset ∧
      slice document (block.start.offset - 2) block.start.offset = "/>"

/-- How a block lies in a document: from one character boundary to another, right
behind the `>` of a tag, and with the document's text as its content. -/
structure Block.LiesIn (block : Block) (document : String) : Prop where
  start_le_stop : block.start.offset ≤ block.stop.offset
  stop_le_size : block.stop.offset ≤ document.utf8ByteSize
  startBoundary : IsBoundary document block.start.offset
  stopBoundary : IsBoundary document block.stop.offset
  content_eq : slice document block.start.offset block.stop.offset = block.text
  opened : 1 ≤ block.start.offset ∧
    slice document (block.start.offset - 1) block.start.offset = ">"
  closed : block.ClosedIn document

namespace MadeBy

variable {document : String} {block : Block} {earlier later : List Piece} {element : Element}

theorem kind_eq {source : List Char} (made : MadeBy source block earlier element later) :
    block.kind = .ofElement element.name element.tag.attributes := by
  rw [made.block_eq]
  rfl

/-- A word at the end of the opening tag stands right before the block. -/
theorem slice_before (made : MadeBy document.toList block earlier element later)
    {start word : List Char} (opening : element.opening = start ++ word) :
    byteLength word ≤ block.start.offset ∧
      slice document (block.start.offset - byteLength word) block.start.offset =
        String.ofList word := by
  have reached : block.start.offset =
      byteLength (earlier.flatMap Piece.source ++ start) + byteLength word := by
    rw [Position.offset, made.start_eq, opening]
    simp [Nat.add_assoc]
  have whole := made.source_eq
  rw [made.start_eq, opening, List.append_assoc, ← List.append_assoc _ start,
    List.append_assoc _ word] at whole
  rw [reached, Nat.add_sub_cancel]
  exact ⟨Nat.le_add_left _ _, slice_of_eq_append whole⟩

/-- A word at the start of what follows the block stands right behind it. -/
theorem slice_behind (made : MadeBy document.toList block earlier element later)
    {word rest : List Char}
    (starts : word ++ rest = element.ending.source ++ later.flatMap Piece.source) :
    slice document block.stop.offset (block.stop.offset + byteLength word) =
      String.ofList word := by
  have whole := made.source_eq
  rw [← starts] at whole
  exact slice_of_eq_append whole

theorem closedIn (made : MadeBy document.toList block earlier element later) :
    block.ClosedIn document := by
  rcases exists_readFrom made.pieces_eq with ⟨text, _, read⟩
  have ends := read.ends
  rw [Block.ClosedIn, made.ending_eq]
  cases ending : element.ending with
  | missing =>
      rw [ending] at ends
      left
      rw [utf8ByteSize_eq_byteLength, made.source_eq, ending, ends.2.2]
      simp [Block.stop, Position.offset, Position.advance, Ending.source]
  | endTag close =>
      rw [ending] at ends
      have starts := (bodyEnd?_eq_some ends.2).1
      rw [startsEndTag, Bool.and_eq_true, List.isPrefixOf_iff_prefix] at starts
      rcases starts.1 with ⟨behind, eq⟩
      have named : "</" ++ block.kind.name = String.ofList ('<' :: '/' :: nameAt text) := by
        rw [made.kind_eq, BlockKind.name_ofElement, read.name_eq]
        apply String.toList_inj.mp
        simp
      right
      left
      rw [named, utf8ByteSize_eq_byteLength, String.toList_ofList]
      apply made.slice_behind
      rw [ending]
      exact eq
  | selfClosed =>
      rw [ending] at ends
      rcases read.exists_opening_close with ⟨start, opening⟩
      rw [OpeningTag.close, if_pos ends.1] at opening
      right
      right
      refine ⟨rfl, ?_, (made.slice_before opening).2⟩
      rw [Block.stop, made.content_eq, ends.2, Position.advance_nil]

theorem liesIn (made : MadeBy document.toList block earlier element later) :
    block.LiesIn document := by
  rcases exists_readFrom made.pieces_eq with ⟨text, _, read⟩
  rcases read.exists_opening_close with ⟨start, opening⟩
  rcases element.tag.exists_close_eq with ⟨front, close⟩
  rw [close, ← List.append_assoc] at opening
  have whole := made.source_eq
  have stop_eq : byteLength (block.start.before ++ block.content) = block.stop.offset := rfl
  constructor
  · exact block.start_le_stop
  · rw [utf8ByteSize_eq_byteLength, whole, byteLength_append, stop_eq]
    exact Nat.le_add_right _ _
  · rw [List.append_assoc] at whole
    exact isBoundary_of_eq_append whole
  · exact isBoundary_of_eq_append whole
  · rw [List.append_assoc] at whole
    rw [← stop_eq, byteLength_append]
    exact slice_of_eq_append whole
  · exact made.slice_before opening
  · exact made.closedIn

end MadeBy

/-- What holds of the outline of a document and of its slots. -/
structure Outline.WellStructured (outline : Outline) (document : String) : Prop where
  /-- The slots hold each listed block once, and nothing else. -/
  slots_perm : outline.slots.Perm outline.blocks
  nodup : outline.slots.Nodup
  /-- Put in order, the slots are the list. -/
  inOrder_eq : outline.inOrder = outline.blocks
  /-- A block ends in front of the next one. -/
  apart : outline.inOrder.Pairwise fun first second => first.stop.offset < second.start.offset
  /-- A slot holds blocks of its kind. -/
  kind_of_find? : ∀ kind block, outline.find? kind = some block → block.kind = kind
  kind_of_styles : ∀ block ∈ outline.styles, block.kind = .style
  kind_of_customBlocks : ∀ block ∈ outline.customBlocks, ∃ name, block.kind = .custom name
  /-- Each block lies in the document. -/
  liesIn : ∀ block ∈ outline.slots, block.LiesIn document
  /-- A blank block is the template or names a file. -/
  written : ∀ block ∈ outline.slots, block.kind ≠ .template →
    block.content.all isBlank = true → block.attributes.has "src" = true

/-- The slots of every document are well structured. -/
theorem wellStructured_outline (document : String) :
    (outline document.toList).WellStructured document := by
  have arranged := Outline.arranged document.toList
  have perm := arranged.slots_perm
  constructor
  · exact perm
  · apply perm.nodup_iff.mpr
    apply arranged.apart.imp
    intro first second less same
    rw [same] at less
    exact absurd second.start_le_stop (Nat.not_le_of_lt less)
  · exact arranged.inOrder_eq_blocks
  · rw [arranged.inOrder_eq_blocks]
    exact arranged.apart
  · intro kind block found
    simpa using List.find?_some found
  · intro block member
    simpa using (List.mem_filter.mp member).2
  · intro block member
    have custom := (List.mem_filter.mp member).2
    cases kind : block.kind with
    | custom name => exact ⟨name, rfl⟩
    | template | script | scriptSetup | style => simp [kind] at custom
  · intro block member
    rcases exists_madeBy (perm.mem_iff.mp member) with ⟨earlier, element, later, made⟩
    exact made.liesIn
  · intro block member notTemplate blank
    rcases exists_madeBy (perm.mem_iff.mp member) with ⟨earlier, element, later, made⟩
    simpa [Block.isVoid, notTemplate, blank] using made.notVoid

end Component

end ScriptView
