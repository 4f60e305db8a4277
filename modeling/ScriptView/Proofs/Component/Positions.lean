import ScriptView.Proofs.Component.Problems

/-!
# Lines and columns in a document

A position is given by the text before it. What is told of it is an offset in
bytes, a line and a column, and these are compared here with the document: the
line counts the bytes of line feeds, the column the characters behind the last of
them, and both are found in the table of the offsets at which lines start. The
main statement, `located_positions`, is about every position that the outline of
a document tells of.
-/

namespace ScriptView

namespace Text

/-! ## The bytes of a document -/

/-- The byte of a line feed. -/
def lineFeed : UInt8 := 0x0a

/-- The bytes of a text in UTF-8. -/
def encoding (text : List Char) : List UInt8 :=
  text.flatMap String.utf8EncodeChar

/-- The bytes of a document. -/
def bytes (document : String) : List UInt8 :=
  document.toUTF8.data.toList

theorem bytes_eq_encoding (document : String) : bytes document = encoding document.toList := by
  rw [bytes, String.toUTF8, ← String.ofList_toList (s := document), String.toByteArray_ofList,
    String.toList_ofList, List.utf8Encode, List.data_toByteArray, encoding]

@[simp] theorem encoding_cons (c : Char) (text : List Char) :
    encoding (c :: text) = String.utf8EncodeChar c ++ encoding text := rfl

@[simp] theorem encoding_append (front back : List Char) :
    encoding (front ++ back) = encoding front ++ encoding back :=
  List.flatMap_append

@[simp] theorem length_encoding (text : List Char) : (encoding text).length = byteLength text := by
  induction text with
  | nil => rfl
  | cons c text ih =>
      rw [encoding_cons, List.length_append, String.length_utf8EncodeChar, ih, byteLength_cons]

/-- No other character has the byte of a line feed in its encoding. -/
theorem lineFeed_mem_utf8EncodeChar {c : Char} :
    lineFeed ∈ String.utf8EncodeChar c ↔ c = '\n' := by
  constructor
  · intro member
    have inNat := List.mem_map_of_mem (f := UInt8.toNat) member
    have value : c.toNat = c.val.toNat := rfl
    have ten : c.val.toNat = 10 := by
      simp only [String.utf8EncodeChar] at inNat
      split_ifs at inNat <;> simp [lineFeed] at inNat <;> omega
    exact Char.toNat_inj.mp ten
  · intro same
    rw [same]
    decide

theorem lineFeed_mem_encoding {text : List Char} : lineFeed ∈ encoding text ↔ '\n' ∈ text := by
  rw [encoding, List.mem_flatMap]
  simp [lineFeed_mem_utf8EncodeChar]

theorem count_lineFeed_encoding (text : List Char) :
    (encoding text).count lineFeed = text.count '\n' := by
  induction text with
  | nil => rfl
  | cons c text ih =>
      rw [encoding_cons, List.count_append, ih]
      by_cases feeds : c = '\n'
      · rw [feeds, List.count_cons_self, Nat.add_comm]
        rfl
      · have none : (String.utf8EncodeChar c).count lineFeed = 0 := by
          apply List.count_eq_zero.mpr
          intro member
          exact feeds (lineFeed_mem_utf8EncodeChar.mp member)
        rw [none, List.count_cons_of_ne feeds, Nat.zero_add]

variable {document : String} {front back : List Char}

theorem take_bytes (whole : document.toList = front ++ back) :
    (bytes document).take (byteLength front) = encoding front := by
  rw [bytes_eq_encoding, whole, encoding_append]
  exact List.take_left' (length_encoding front)

/-! ## The last line of a text -/

/-- A text is cut behind its last line feed. -/
structure LastLine (text lines last : List Char) : Prop where
  split : text = lines ++ last
  free : '\n' ∉ last
  ended : lines = [] ∨ ∃ earlier, lines = earlier ++ ['\n']

theorem exists_lastLine (text : List Char) : ∃ lines last, LastLine text lines last := by
  by_cases member : '\n' ∈ text
  · obtain ⟨earlier, last, split, free⟩ := Text.exists_last_of_mem member
    refine ⟨earlier ++ ['\n'], last, ?_, free, .inr ⟨earlier, rfl⟩⟩
    rw [split, List.append_cons]
  · exact ⟨[], text, rfl, member, .inl rfl⟩

/-- Read backwards, a row has a property up to its last entry that lacks it. -/
theorem takeWhile_reverse_append {α : Type} {p : α → Bool} {front back : List α} {entry : α}
    (holds : ∀ other ∈ back, p other = true) (lacks : p entry = false)
    (ended : front = [] ∨ ∃ earlier, front = earlier ++ [entry]) :
    (front ++ back).reverse.takeWhile p = back.reverse := by
  have holdsToo : ∀ other ∈ back.reverse, p other = true := by simpa using holds
  have stops : front.reverse.takeWhile p = [] := by
    cases ended with
    | inl nothing =>
        rw [nothing]
        rfl
    | inr ends =>
        rcases ends with ⟨earlier, split⟩
        rw [split, List.reverse_append]
        exact List.takeWhile_cons_of_neg (by simp [lacks])
  rw [List.reverse_append, List.takeWhile_append_of_pos holdsToo, stops, List.append_nil]

namespace LastLine

variable {text lines last : List Char} (cut : LastLine text lines last)

include cut

/-- The column behind a text counts the characters of its last line. -/
theorem column_eq : (Position.mk text).column = last.length + 1 := by
  have holds := Text.forall_bne_of_not_mem cut.free
  rw [Position.column, cut.split, takeWhile_reverse_append holds (bne_self_eq_false '\n') cut.ended,
    List.length_reverse]

/-- The bytes of the last line are those behind the last byte of a line feed. -/
theorem length_takeWhile_encoding :
    ((encoding text).reverse.takeWhile (· != lineFeed)).length = byteLength last := by
  have free : lineFeed ∉ encoding last := fun member => cut.free (lineFeed_mem_encoding.mp member)
  have holds := Text.forall_bne_of_not_mem free
  have ended : encoding lines = [] ∨ ∃ earlier, encoding lines = earlier ++ [lineFeed] := by
    cases cut.ended with
    | inl nothing => exact .inl (congrArg encoding nothing)
    | inr ends =>
        rcases ends with ⟨earlier, split⟩
        exact .inr ⟨encoding earlier, by rw [split, encoding_append]; rfl⟩
  rw [cut.split, encoding_append, takeWhile_reverse_append holds (bne_self_eq_false lineFeed) ended,
    List.length_reverse, length_encoding]

end LastLine

/-! ## Where lines start -/

/-- The start of the line that an offset is in: it is right behind the last line
feed in front of the offset, or the start of the document. -/
def lineStart (document : String) (offset : Nat) : Nat :=
  offset - (((bytes document).take offset).reverse.takeWhile (· != lineFeed)).length

theorem lineStart_eq {lines last : List Char} (whole : document.toList = front ++ back)
    (cut : LastLine front lines last) :
    lineStart document (byteLength front) = byteLength lines := by
  rw [lineStart, take_bytes whole, cut.length_takeWhile_encoding, cut.split, byteLength_append]
  exact Nat.add_sub_cancel _ _

/-- The offsets right behind the line feeds of a text that starts at an offset. -/
def startsBehind (offset : Nat) : List Char → List Nat
  | [] => []
  | c :: rest =>
      let next := offset + c.utf8Size
      if c = '\n' then next :: startsBehind next rest else startsBehind next rest

/-- The table of the offsets at which the lines of a document start. -/
def lineStarts (document : String) : List Nat :=
  0 :: startsBehind 0 document.toList

/-- A line starts behind a line feed at the end, and offsets count bytes. -/
example : lineStarts "é\nü\n" = [0, 3, 6] := by decide

theorem startsBehind_append (offset : Nat) (front back : List Char) :
    startsBehind offset (front ++ back) =
      startsBehind offset front ++ startsBehind (offset + byteLength front) back := by
  induction front generalizing offset with
  | nil => rfl
  | cons c front ih =>
      rw [List.cons_append, startsBehind, startsBehind, ih, byteLength_cons, Nat.add_assoc]
      split
      · rfl
      · rfl

theorem length_startsBehind (offset : Nat) (text : List Char) :
    (startsBehind offset text).length = text.count '\n' := by
  induction text generalizing offset with
  | nil => rfl
  | cons c text ih =>
      rw [startsBehind]
      split
      · next feeds => rw [List.length_cons, ih, feeds, List.count_cons_self]
      · next other => rw [ih, List.count_cons_of_ne other]

/-- Lines start within a text, and not where it starts. -/
theorem bounds_of_mem_startsBehind {offset start : Nat} {text : List Char}
    (member : start ∈ startsBehind offset text) :
    offset < start ∧ start ≤ offset + byteLength text := by
  induction text generalizing offset with
  | nil => cases member
  | cons c text ih =>
      have positive := c.utf8Size_pos
      have inside : start = offset + c.utf8Size ∨
          start ∈ startsBehind (offset + c.utf8Size) text := by
        rw [startsBehind] at member
        split at member
        · exact List.mem_cons.mp member
        · exact .inr member
      rw [byteLength_cons]
      cases inside with
      | inl here => omega
      | inr later =>
          have bounds := ih later
          omega

theorem LastLine.getLast?_startsBehind {text lines last : List Char}
    (cut : LastLine text lines last) :
    (0 :: startsBehind 0 text).getLast? = some (byteLength lines) := by
  have noneLater : startsBehind (0 + byteLength lines) last = [] := by
    apply List.eq_nil_of_length_eq_zero
    rw [length_startsBehind]
    exact List.count_eq_zero.mpr cut.free
  rw [cut.split, startsBehind_append, noneLater, List.append_nil]
  cases cut.ended with
  | inl nothing =>
      rw [nothing]
      rfl
  | inr ends =>
      rcases ends with ⟨earlier, split⟩
      rw [split, startsBehind_append, byteLength_append, Nat.zero_add, ← List.cons_append]
      exact List.getLast?_concat

/-! ## Positions in a document -/

/-- The offset, the line and the column of a position are right for a document. -/
structure Position.IsRightIn (position : Position) (document : String) : Prop where
  onBoundary : IsBoundary document position.offset
  /-- The line counts the line feeds among the bytes in front. -/
  line_eq : position.line = 1 + ((bytes document).take position.offset).count lineFeed
  /-- The column counts the characters behind the last line feed. -/
  column_eq : position.column =
    1 + (slice document (lineStart document position.offset) position.offset).length
  /-- The table of line starts parts at the line, right behind where it starts. -/
  table : ∃ reached later, lineStarts document = reached ++ later ∧
    (∀ start ∈ reached, start ≤ position.offset) ∧ (∀ start ∈ later, position.offset < start) ∧
    reached.length = position.line ∧
    reached.getLast? = some (lineStart document position.offset)

theorem Position.isRightIn {position : Position}
    (inside : position.before <+: document.toList) : position.IsRightIn document := by
  rcases inside with ⟨back, whole⟩
  have whole := whole.symm
  rcases exists_lastLine position.before with ⟨lines, last, cut⟩
  have start := lineStart_eq whole cut
  change lineStart document position.offset = _ at start
  constructor
  · exact isBoundary_of_eq_append whole
  · rw [offset, take_bytes whole, count_lineFeed_encoding, line, Nat.add_comm]
  · have sliced : slice document (byteLength lines) position.offset = String.ofList last := by
      rw [offset, cut.split, byteLength_append]
      apply slice_of_eq_append
      rw [whole, cut.split, List.append_assoc]
    rw [start, sliced, String.length_ofList, Nat.add_comm]
    exact cut.column_eq
  · refine ⟨0 :: startsBehind 0 position.before, startsBehind (0 + byteLength position.before) back,
      ?_, ?_, ?_, ?_, ?_⟩
    · rw [lineStarts, whole, startsBehind_append]
      rfl
    · intro start member
      cases List.mem_cons.mp member with
      | inl first => exact first ▸ Nat.zero_le _
      | inr later =>
          have bounds := bounds_of_mem_startsBehind later
          rw [offset]
          omega
    · intro start member
      have bounds := bounds_of_mem_startsBehind member
      rw [offset]
      omega
    · rw [List.length_cons, length_startsBehind, line]
    · rw [start]
      exact cut.getLast?_startsBehind

/-! ## The order of positions -/

namespace Position

/-- The order of two positions by line and, on one line, by column. -/
def compareByLine (first second : Position) : Ordering :=
  (compare first.line second.line).then (compare first.column second.column)

theorem line_advance (position : Position) (passed : List Char) :
    (position.advance passed).line = position.line + passed.count '\n' := by
  rw [advance, line, line, List.count_append]
  omega

/-- On one line the column grows with the characters passed. -/
theorem column_advance {passed : List Char} (position : Position) (free : '\n' ∉ passed) :
    (position.advance passed).column = position.column + passed.length := by
  rcases exists_lastLine position.before with ⟨lines, last, cut⟩
  have further : LastLine (position.before ++ passed) lines (last ++ passed) := by
    constructor
    · rw [cut.split, List.append_assoc]
    · simp [cut.free, free]
    · exact cut.ended
  have here : position.column = last.length + 1 := cut.column_eq
  rw [advance, further.column_eq, here, List.length_append]
  omega

theorem compareByLine_advance (position : Position) (passed : List Char) :
    compare position.offset (position.advance passed).offset =
      position.compareByLine (position.advance passed) := by
  rw [compareByLine, line_advance, offset_advance]
  by_cases feeds : '\n' ∈ passed
  · have nonempty : passed ≠ [] := List.ne_nil_of_mem feeds
    have further := byteLength_pos nonempty
    have lower := List.count_pos_iff.mpr feeds
    rw [Nat.compare_eq_lt.mpr (by omega), Nat.compare_eq_lt.mpr (by omega)]
    rfl
  · rw [column_advance position feeds, List.count_eq_zero.mpr feeds, Nat.add_zero,
      Nat.compare_eq_eq.mpr rfl, Ordering.then]
    cases passed with
    | nil => simp
    | cons c rest =>
        have positive := c.utf8Size_pos
        rw [byteLength_cons, List.length_cons, Nat.compare_eq_lt.mpr (by omega),
          Nat.compare_eq_lt.mpr (by omega)]

theorem compareByLine_swap (first second : Position) :
    (first.compareByLine second).swap = second.compareByLine first := by
  rw [compareByLine, compareByLine, Ordering.swap_then, Nat.compare_swap, Nat.compare_swap]

/-- Two positions of one text are ordered by offset as they are by line and column. -/
theorem compare_offset {first second : Position} {text : List Char}
    (firstInside : first.before <+: text) (secondInside : second.before <+: text) :
    compare first.offset second.offset = first.compareByLine second := by
  cases List.prefix_or_prefix_of_prefix firstInside secondInside with
  | inl before =>
      rcases before with ⟨passed, split⟩
      have behind : second = first.advance passed := by rw [advance, split]
      rw [behind]
      exact compareByLine_advance first passed
  | inr before =>
      rcases before with ⟨passed, split⟩
      have behind : first = second.advance passed := by rw [advance, split]
      rw [← Nat.compare_swap, ← compareByLine_swap, behind]
      exact congrArg Ordering.swap (compareByLine_advance second passed)

end Position

end Text

namespace Component

open Text

/-- All positions that an outline tells of: where its blocks start and stop, and
those of its problems. -/
def Outline.positions (outline : Outline) : List Position :=
  outline.slots.flatMap (fun block => [block.start, block.stop]) ++
    outline.problems.map (·.position)

/-- Each of them is in the component. -/
theorem isPrefix_of_mem_positions {source : List Char} {position : Position}
    (member : position ∈ (outline source).positions) : position.before <+: source := by
  cases List.mem_append.mp member with
  | inl ofBlock =>
      rcases List.mem_flatMap.mp ofBlock with ⟨block, stored, here⟩
      have listed := (Outline.arranged source).slots_perm.mem_iff.mp stored
      rcases exists_madeBy listed with ⟨earlier, element, later, made⟩
      have stop : block.stop.before <+: source := by
        conv_rhs => rw [made.source_eq]
        exact List.prefix_append _ _
      have start : block.start.before <+: block.stop.before := List.prefix_append _ _
      simp only [List.mem_cons, List.not_mem_nil, or_false] at here
      cases here with
      | inl isStart => exact isStart ▸ start.trans stop
      | inr isStop => exact isStop ▸ stop
  | inr ofProblem =>
      rcases List.mem_map.mp ofProblem with ⟨problem, reported, here⟩
      rw [← here]
      exact (List.prefix_append _ _).trans ((Outline.reported source).passed problem reported)

/-- All positions that the outline of a document tells of are right, and two of
them are ordered by offset as they are by line and column. -/
theorem located_positions (document : String) :
    (∀ position ∈ (outline document.toList).positions, position.IsRightIn document) ∧
      ∀ first ∈ (outline document.toList).positions,
        ∀ second ∈ (outline document.toList).positions,
          compare first.offset second.offset = first.compareByLine second := by
  constructor
  · intro position member
    exact Position.isRightIn (isPrefix_of_mem_positions member)
  · intro first firstMember second secondMember
    exact Position.compare_offset (isPrefix_of_mem_positions firstMember)
      (isPrefix_of_mem_positions secondMember)

/-- Offsets count bytes, columns count characters. -/
example :
    (outline "é\n<b>ü</b>".toList).positions.map
        (fun position => (position.offset, position.line, position.column)) =
      [(6, 2, 4), (8, 2, 5)] := by
  decide +kernel

end Component

end ScriptView
