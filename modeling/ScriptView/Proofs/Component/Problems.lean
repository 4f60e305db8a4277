import Mathlib.Data.List.Basic
import ScriptView.Proofs.Component.Saving

/-!
# What the problems of a document tell

A problem tells of a second block of a kind that a component has once, or of a
construct that the text leaves unfinished. An unfinished piece is the last one,
so reading stops where the second sort is found. Reading keeps one invariant about
all that is reported, `Outline.Reported`, and what the last piece adds to it is told
by `StopsAt`. The main statement, `truthful_outline`, is about all documents.
-/

namespace ScriptView.Component

open Text

/-! ## Two sorts of defects -/

/-- Whether reading stops where a defect is found. -/
def Defect.stops : Defect → Bool
  | .duplicateBlock _ => false
  | .missingEndTag _ | .unterminatedTag _ | .unterminatedComment => true

namespace Outline

variable {outline : Outline} {position : Position} {piece : Piece} {problem : Problem}

theorem missing_of_unfinished? {element : Element} {defect : Defect}
    (unfinished : (Piece.element element).unfinished? = some defect) :
    element.ending = .missing ∧ defect = .missingEndTag element.name := by
  rw [Piece.unfinished?] at unfinished
  split at unfinished
  · next missing => exact ⟨missing, (Option.some.inj unfinished).symm⟩
  · cases unfinished

theorem stops_of_unfinished? {defect : Defect} (unfinished : piece.unfinished? = some defect) :
    defect.stops = true := by
  cases piece with
  | text | comment | endTag | openEndTag => cases unfinished
  | openComment | openTag =>
      cases unfinished
      rfl
  | element element =>
      rw [(missing_of_unfinished? unfinished).2]
      rfl

theorem exists_conflict_of_second? {defect : Defect}
    (second : outline.second? piece = some defect) :
    ∃ kind name, outline.conflict? kind = some name ∧ defect = .duplicateBlock name := by
  cases piece with
  | text | comment | endTag | openEndTag | openComment | openTag => cases second
  | element element =>
      rw [second?] at second
      split at second
      · cases second
      · rcases Option.map_eq_some_iff.mp second with ⟨name, conflict, same⟩
        exact ⟨_, name, conflict, same.symm⟩

theorem not_stops_of_second? {defect : Defect} (second : outline.second? piece = some defect) :
    defect.stops = false := by
  rcases exists_conflict_of_second? second with ⟨_, name, _, same⟩
  rw [same]
  rfl

/-- A defect at which reading does not stop is that of a second block. -/
theorem second?_of_not_stops {defect : Defect} (found : defect ∈ outline.defects piece)
    (goesOn : defect.stops = false) : outline.second? piece = some defect := by
  cases List.mem_append.mp found with
  | inl unfinished =>
      have stops := stops_of_unfinished? (Option.mem_toList.mp unfinished)
      rw [stops] at goesOn
      cases goesOn
  | inr second => exact Option.mem_toList.mp second

/-! ## Second blocks -/

/-- A problem is that of a block whose slot is filled: by a block that ends where
the problem is, or before. -/
def IsSecond (outline : Outline) (problem : Problem) : Prop :=
  ∃ name kind block, problem.defect = .duplicateBlock name ∧ kind.singleName? = some name ∧
    outline.find? kind = some block ∧ block.stop.offset ≤ problem.position.offset

theorem isSecond_of_second? {defect : Defect} (arranged : outline.Arranged position)
    (second : outline.second? piece = some defect) : outline.IsSecond ⟨defect, position⟩ := by
  rcases exists_conflict_of_second? second with ⟨kind, name, conflict, rfl⟩
  rw [conflict?] at conflict
  split at conflict
  · next listed =>
    have isSome : (outline.find? kind).isSome = true := by
      rw [find?, List.find?_isSome]
      exact List.any_eq_true.mp listed
    rcases Option.isSome_iff_exists.mp isSome with ⟨block, found⟩
    exact ⟨name, kind, block, rfl, conflict, found,
      arranged.passed block (List.mem_of_find?_eq_some found)⟩
  · cases conflict

/-- A filled slot stays as it is when a further piece is read. -/
theorem IsSecond.addPiece (second : outline.IsSecond problem) (position : Position)
    (piece : Piece) : (outline.addPiece position piece).IsSecond problem := by
  rcases second with ⟨name, kind, block, same, single, found, passed⟩
  have isKind : block.kind = kind := by simpa using List.find?_some found
  refine ⟨name, kind, block, same, single, ?_, passed⟩
  have kept : (outline.addPieces position [piece]).find? block.kind = outline.find? block.kind :=
    find?_addPieces (List.mem_of_find?_eq_some found) [piece]
  rw [isKind, found] at kept
  exact kept

end Outline

/-! ## Where pieces start and stop -/

/-- A piece that can have a defect starts with `<`. -/
def Piece.Opens : Piece → Prop
  | .text _ | .comment _ | .endTag _ | .openEndTag _ => True
  | .openComment source | .openTag _ source => ['<'] <+: source
  | .element inner => ['<'] <+: inner.opening

namespace Piece

variable {c : Char} {tail rest : List Char} {piece : Piece}

theorem Opens.isPrefix_source {outline : Outline} (opens : piece.Opens)
    (defective : outline.defects piece ≠ []) : ['<'] <+: piece.source := by
  cases piece with
  | text | comment | endTag | openEndTag => exact absurd rfl defective
  | openComment | openTag => exact opens
  | element element =>
      rw [source, Element.source_eq]
      exact opens.trans (List.prefix_append _ _)

theorem Opens.opening_ne_nil {element : Element} (opens : (Piece.element element).Opens) :
    element.opening ≠ [] := by
  intro nothing
  rw [Opens, nothing] at opens
  cases List.prefix_nil.mp opens

theorem opens_first (read : first c tail = (piece, rest)) : piece.Opens := by
  by_cases less : c = '<'
  · have whole := first_append c tail
    rw [read, less] at whole
    cases piece with
    | text | comment | endTag | openEndTag => trivial
    | openComment source | openTag name source =>
        -- Such a piece takes the text from its `<` on, since no piece takes nothing.
        have starts : source ≠ [] := by
          intro nothing
          have shorter := length_first_lt c tail
          rw [read, less, ← whole, Piece.source, nothing] at shorter
          simp at shorter
        cases source with
        | nil => exact absurd rfl starts
        | cons d source =>
            have same : d = '<' := (List.cons.inj whole).1
            exact ⟨source, by rw [same]; rfl⟩
    | element element =>
        rcases (first_eq_element_iff.mp read).2.exists_opening with ⟨front, opening, _, _⟩
        exact ⟨front, opening.symm⟩
  · rw [first_of_ne less] at read
    cases read
    trivial

/-- Nothing is left behind an unfinished piece. -/
theorem rest_eq_nil_of_unfinished? {defect : Defect} (read : first c tail = (piece, rest))
    (unfinished : piece.unfinished? = some defect) : rest = [] := by
  cases piece with
  | text | comment | endTag | openEndTag => cases unfinished
  | element element =>
      have ends := (first_eq_element_iff.mp read).2.ends
      rw [(Outline.missing_of_unfinished? unfinished).1] at ends
      exact ends.2.2
  | openComment | openTag =>
      simp only [first, ofElement] at read
      grind

end Piece

section Pieces

variable {source : List Char} {earlier later : List Piece} {piece : Piece}

theorem opens_of_mem_pieces (member : piece ∈ pieces source) : piece.Opens := by
  rcases List.append_of_mem member with ⟨earlier, later, read⟩
  rcases exists_first_of_pieces_eq_cons (pieces_flatMap_source read) with ⟨_, _, _, _, _, first, _⟩
  exact Piece.opens_first first

/-- An unfinished piece is the last one. -/
theorem later_eq_nil_of_unfinished? {defect : Defect}
    (read : pieces source = earlier ++ piece :: later)
    (unfinished : piece.unfinished? = some defect) : later = [] := by
  rcases exists_first_of_pieces_eq_cons (pieces_flatMap_source read) with
    ⟨_, _, _, _, _, first, others⟩
  have nothing := Piece.rest_eq_nil_of_unfinished? first unfinished
  rw [← others, nothing, pieces_nil]

/-- The pieces in front of another one are finished. -/
theorem unfinished?_eq_none_of_mem {finished : Piece}
    (read : pieces source = earlier ++ piece :: later) (member : finished ∈ earlier) :
    finished.unfinished? = none := by
  rcases List.append_of_mem member with ⟨front, between, split⟩
  cases unfinished : finished.unfinished? with
  | none => rfl
  | some defect =>
      rw [split, List.append_assoc, List.cons_append] at read
      have nothing := later_eq_nil_of_unfinished? read unfinished
      simp at nothing

end Pieces

/-! ## Reading keeps the problems in order -/

namespace Outline

variable {outline : Outline} {position : Position} {piece : Piece}

/-- How the problems stand that are reported when a position is reached. -/
structure Reported (outline : Outline) (position : Position) : Prop where
  inOrder : outline.problems.Pairwise fun first second =>
    first.position.offset ≤ second.position.offset
  passed : ∀ problem ∈ outline.problems, problem.position.before ++ ['<'] <+: position.before
  second : ∀ problem ∈ outline.problems, problem.defect.stops = false → outline.IsSecond problem

namespace Reported

theorem empty : Reported {} position where
  inOrder := List.Pairwise.nil
  passed := by simp
  second := by simp

theorem offset_le {problem : Problem} (reported : outline.Reported position)
    (member : problem ∈ outline.problems) : problem.position.offset ≤ position.offset := by
  rcases reported.passed problem member with ⟨behind, split⟩
  rw [Position.offset, Position.offset, ← split, byteLength_append, byteLength_append]
  omega

/-- One piece reports its problems behind the others. -/
theorem addPiece (reported : outline.Reported position) (arranged : outline.Arranged position)
    (opens : piece.Opens) :
    (outline.addPiece position piece).Reported (position.advance piece.source) := by
  constructor
  · rw [problems_addPiece]
    apply List.pairwise_append.mpr
    refine ⟨reported.inOrder, ?_, ?_⟩
    · apply List.pairwise_map.mpr
      apply List.pairwise_of_forall
      intro first second
      exact Nat.le_refl position.offset
    · intro old oldMember new newMember
      rcases List.mem_map.mp newMember with ⟨defect, _, here⟩
      rw [← here]
      exact reported.offset_le oldMember
  · intro problem member
    cases mem_problems_addPiece_iff.mp member with
    | inl old => exact (reported.passed problem old).trans (List.prefix_append _ _)
    | inr new =>
        have starts := opens.isPrefix_source (List.ne_nil_of_mem new.2)
        rw [new.1]
        exact (List.prefix_append_right_inj position.before).mpr starts
  · intro problem member duplicate
    cases mem_problems_addPiece_iff.mp member with
    | inl old => exact (reported.second problem old duplicate).addPiece position piece
    | inr new =>
        have isSecond := isSecond_of_second? arranged (second?_of_not_stops new.2 duplicate)
        rw [← new.1] at isSecond
        exact isSecond.addPiece position piece

/-- So does a row of pieces. -/
theorem addPieces {pieces : List Piece} (reported : outline.Reported position)
    (arranged : outline.Arranged position) (opens : ∀ piece ∈ pieces, piece.Opens) :
    (outline.addPieces position pieces).Reported
      (position.advance (pieces.flatMap Piece.source)) := by
  induction pieces generalizing outline position with
  | nil => simpa [Outline.addPieces] using reported
  | cons piece pieces ih =>
      have opensFirst : piece.Opens := opens piece List.mem_cons_self
      have arrangedFirst : (outline.addPiece position piece).Arranged
          (position.advance piece.source) := by
        apply arranged.addPiece
        intro element same
        rw [same] at opensFirst
        exact opensFirst.opening_ne_nil
      have rest := ih (reported.addPiece arranged opensFirst) arrangedFirst
        fun piece member => opens piece (List.mem_cons_of_mem _ member)
      rw [Position.advance_advance] at rest
      exact rest

end Reported

theorem reported (source : List Char) : (Component.outline source).Reported ⟨source⟩ := by
  have start : Reported {} ⟨[]⟩ := Reported.empty
  have opens : ∀ piece ∈ pieces source, piece.Opens := fun _ member => opens_of_mem_pieces member
  have read := start.addPieces Arranged.empty opens
  rw [flatMap_source_pieces] at read
  exact read

/-- Finished pieces report no problem at which reading stops. -/
theorem not_stops_of_finished {pieces : List Piece}
    (calm : ∀ problem ∈ outline.problems, problem.defect.stops = false)
    (finished : ∀ piece ∈ pieces, piece.unfinished? = none) :
    ∀ problem ∈ (outline.addPieces position pieces).problems, problem.defect.stops = false := by
  induction pieces generalizing outline position with
  | nil => exact calm
  | cons piece pieces ih =>
      apply ih
      · intro problem member
        cases mem_problems_addPiece_iff.mp member with
        | inl old => exact calm problem old
        | inr new =>
            have second := new.2
            rw [defects, finished piece List.mem_cons_self] at second
            exact not_stops_of_second? (Option.mem_toList.mp second)
      · intro other member
        exact finished other (List.mem_cons_of_mem _ member)

end Outline

/-! ## Where reading stops -/

section Stops

variable {problem : Problem} {problems : List Problem}

theorem not_mem_of_stops (stops : problem.defect.stops = true)
    (calm : ∀ other ∈ problems, other.defect.stops = false) : problem ∉ problems := by
  intro member
  rw [calm problem member] at stops
  cases stops

theorem countP_stops_eq_zero (calm : ∀ other ∈ problems, other.defect.stops = false) :
    problems.countP (·.defect.stops) = 0 := by
  apply List.countP_eq_zero.mpr
  intro other member stops
  exact not_mem_of_stops stops calm member

end Stops

/-- Reading a component stops at its last piece with a defect, behind pieces that
are finished. -/
structure StopsAt (source : List Char) (finished : List Piece) (last : Piece) (defect : Defect) :
    Prop where
  pieces_eq : pieces source = finished ++ [last]
  unfinished : last.unfinished? = some defect

namespace StopsAt

variable {source : List Char} {finished : List Piece} {last : Piece} {defect : Defect}

/-- The outline of the finished pieces. -/
abbrev calm (finished : List Piece) : Outline :=
  Outline.addPieces {} ⟨[]⟩ finished

/-- The position behind the finished pieces. -/
abbrev place (finished : List Piece) : Position :=
  ⟨finished.flatMap Piece.source⟩

/-- The problem that the last piece makes a second block, if it does. -/
abbrev seconds (finished : List Piece) (last : Piece) : List Problem :=
  ((calm finished).second? last).toList.map (⟨·, place finished⟩)

theorem outline_eq (stop : StopsAt source finished last defect) :
    outline source = (calm finished).addPiece ⟨finished.flatMap Piece.source⟩ last := by
  rw [outline, stop.pieces_eq, Outline.addPieces_append]
  rfl

theorem not_stops (stop : StopsAt source finished last defect) :
    ∀ problem ∈ (calm finished).problems, problem.defect.stops = false := by
  apply Outline.not_stops_of_finished
  · simp
  · intro piece member
    exact unfinished?_eq_none_of_mem stop.pieces_eq member

/-- What is reported: nothing at which reading stops, the defect, and that its
piece makes a second block if it does. -/
theorem problems_eq (stop : StopsAt source finished last defect) :
    (outline source).problems = (calm finished).problems ++
      ⟨defect, place finished⟩ :: seconds finished last := by
  rw [stop.outline_eq, Outline.problems_addPiece, Outline.defects, stop.unfinished]
  rfl

theorem not_stops_seconds (finished : List Piece) (last : Piece) :
    ∀ problem ∈ seconds finished last, problem.defect.stops = false := by
  intro problem member
  rcases List.mem_map.mp member with ⟨defect, second, here⟩
  rw [← here]
  exact Outline.not_stops_of_second? (Option.mem_toList.mp second)

/-- There is one problem at which reading stops. -/
theorem problem_eq {problem : Problem} (stop : StopsAt source finished last defect)
    (member : problem ∈ (outline source).problems) (stops : problem.defect.stops = true) :
    problem = ⟨defect, place finished⟩ := by
  rw [stop.problems_eq, List.mem_append, List.mem_cons] at member
  have rest := member.resolve_left (not_mem_of_stops stops stop.not_stops)
  exact rest.resolve_right (not_mem_of_stops stops (not_stops_seconds finished last))

theorem countP_stops (stop : StopsAt source finished last defect) :
    (outline source).problems.countP (·.defect.stops) = 1 := by
  rw [stop.problems_eq, List.countP_append, List.countP_cons, countP_stops_eq_zero stop.not_stops,
    countP_stops_eq_zero (not_stops_seconds finished last),
    if_pos (Outline.stops_of_unfinished? stop.unfinished)]

end StopsAt

/-- Reading stops where a problem says so. -/
theorem exists_stopsAt {source : List Char} {problem : Problem}
    (member : problem ∈ (outline source).problems) (stops : problem.defect.stops = true) :
    ∃ finished last, StopsAt source finished last problem.defect ∧
      problem.position = StopsAt.place finished := by
  have notAll : ¬∀ piece ∈ pieces source, piece.unfinished? = none := by
    intro all
    have calm := @Outline.not_stops_of_finished {} ⟨[]⟩ _ (by simp) all
    exact not_mem_of_stops stops calm member
  simp only [not_forall] at notAll
  rcases notAll with ⟨last, inside, unfinished⟩
  rcases Option.ne_none_iff_exists'.mp unfinished with ⟨defect, found⟩
  rcases List.append_of_mem inside with ⟨finished, later, read⟩
  rw [later_eq_nil_of_unfinished? read found] at read
  have stop : StopsAt source finished last defect := ⟨read, found⟩
  have same := stop.problem_eq member stops
  rw [same]
  exact ⟨finished, last, stop, rfl⟩

/-! ## The element without an end tag -/

/-- A problem is that an element has no end tag. The element is the last piece,
and it would make the block. -/
def Problem.IsAbout (problem : Problem) (block : Block) (source : List Char) : Prop :=
  ∃ earlier element, pieces source = earlier ++ [.element element] ∧ element.ending = .missing ∧
    problem = ⟨.missingEndTag element.name, ⟨earlier.flatMap Piece.source⟩⟩ ∧
    block = Outline.blockOf element problem.position

/-- The content of such an element is all that is left of the component. -/
theorem Problem.IsAbout.stop_eq {problem : Problem} {block : Block} {source : List Char}
    (about : problem.IsAbout block source) : block.stop = ⟨source⟩ := by
  rcases about with ⟨earlier, element, read, ending, rfl, rfl⟩
  rw [← flatMap_source_pieces source, read]
  simp [Outline.blockOf, Block.stop, Position.advance, Piece.source, Element.source, ending,
    Ending.source]

namespace StopsAt

variable {source : List Char} {finished : List Piece} {last : Piece} {defect : Defect}

/-- An element that reading stops at has no end tag. -/
theorem isAbout {element : Element} (stop : StopsAt source finished (.element element) defect) :
    Problem.IsAbout ⟨defect, place finished⟩ (Outline.blockOf element (place finished)) source := by
  have missing := Outline.missing_of_unfinished? stop.unfinished
  exact ⟨finished, element, stop.pieces_eq, missing.1, by rw [missing.2], rfl⟩

theorem exists_isAbout {name : String} (stop : StopsAt source finished last (.missingEndTag name)) :
    ∃ block, Problem.IsAbout ⟨.missingEndTag name, place finished⟩ block source := by
  cases last with
  | text | comment | endTag | openEndTag | openComment | openTag => cases stop.unfinished
  | element element => exact ⟨_, stop.isAbout⟩

theorem arranged (stop : StopsAt source finished last defect) :
    (calm finished).Arranged (place finished) := by
  apply Outline.Arranged.empty.addPieces
  intro element member
  have inside : .element element ∈ pieces source := by
    rw [stop.pieces_eq]
    exact List.mem_append_left _ member
  exact (opens_of_mem_pieces inside).opening_ne_nil

/-- A block that starts behind the place where reading stops is that of the last
piece. -/
theorem isAbout_of_mem {block : Block} (stop : StopsAt source finished last defect)
    (member : block ∈ (outline source).blocks)
    (behind : (place finished).offset < block.start.offset) :
    Problem.IsAbout ⟨defect, place finished⟩ block source := by
  rw [stop.outline_eq] at member
  cases Outline.mem_blocks_addPiece member with
  | inl old =>
      have passed := stop.arranged.passed block old
      have before := Nat.le_trans block.start_le_stop passed
      exact absurd behind (Nat.not_lt_of_le before)
  | inr new =>
      rcases new with ⟨element, rfl, rfl, _, _⟩
      exact stop.isAbout

/-- What is left to say when reading has stopped. -/
theorem second?_eq (stop : StopsAt source finished last defect) :
    (calm finished).second? last = none ∨
      ∃ name slot, defect = .missingEndTag name ∧
        (calm finished).second? last = some (.duplicateBlock slot) := by
  cases second : (calm finished).second? last with
  | none => exact .inl rfl
  | some duplicate =>
      cases last with
      | text | comment | endTag | openEndTag | openComment | openTag => cases second
      | element element =>
          rcases Outline.exists_conflict_of_second? second with ⟨_, slot, _, same⟩
          have missing := Outline.missing_of_unfinished? stop.unfinished
          exact .inr ⟨element.name, slot, missing.2, congrArg some same⟩

end StopsAt

/-! ## Documents -/

/-- What the problems of a document's outline tell. -/
structure Outline.Truthful (outline : Outline) (document : String) : Prop where
  /-- The problems come in the order of the places that they are about. -/
  inOrder : outline.problems.Pairwise fun first second =>
    first.position.offset ≤ second.position.offset
  /-- At each of these places stands a `<`. -/
  atTag : ∀ problem ∈ outline.problems,
    slice document problem.position.offset (problem.position.offset + 1) = "<"
  /-- Reading stops once at most. -/
  stopsOnce : outline.problems.countP (·.defect.stops) ≤ 1
  /-- When it has stopped, all that is left to say is that the element without an
  end tag makes a second block. -/
  followed : ∀ earlier problem later, outline.problems = earlier ++ problem :: later →
    problem.defect.stops = true → later = [] ∨ ∃ name slot,
      problem.defect = .missingEndTag name ∧ later = [⟨.duplicateBlock slot, problem.position⟩]
  /-- Behind the place where reading stops no block starts but that of the element
  without an end tag. -/
  stored : ∀ problem ∈ outline.problems, problem.defect.stops = true →
    ∀ block ∈ outline.slots, problem.position.offset < block.start.offset →
      problem.IsAbout block document.toList
  /-- An element that is said to have no end tag is there. -/
  unclosed : ∀ problem ∈ outline.problems, ∀ name, problem.defect = .missingEndTag name →
    ∃ block, problem.IsAbout block document.toList
  /-- Its content runs to the end of the document. -/
  toEnd : ∀ problem ∈ outline.problems, ∀ block, problem.IsAbout block document.toList →
    block.stop.offset = document.utf8ByteSize
  /-- The slot of a second block is filled by a block in front of it. -/
  second : ∀ problem ∈ outline.problems, problem.defect.stops = false → outline.IsSecond problem

section Documents

variable {source : List Char}

theorem countP_stops_le_one (source : List Char) :
    (outline source).problems.countP (·.defect.stops) ≤ 1 := by
  by_cases stopped : ∃ problem ∈ (outline source).problems, problem.defect.stops = true
  · rcases stopped with ⟨problem, member, stops⟩
    rcases exists_stopsAt member stops with ⟨finished, last, stop, _⟩
    exact Nat.le_of_eq stop.countP_stops
  · have calm : ∀ problem ∈ (outline source).problems, problem.defect.stops = false := by
      intro problem member
      apply Bool.eq_false_iff.mpr
      intro stops
      exact stopped ⟨problem, member, stops⟩
    rw [countP_stops_eq_zero calm]
    exact Nat.zero_le 1

theorem later_of_stops {earlier later : List Problem} {problem : Problem}
    (split : (outline source).problems = earlier ++ problem :: later)
    (stops : problem.defect.stops = true) : later = [] ∨ ∃ name slot,
      problem.defect = .missingEndTag name ∧
        later = [⟨.duplicateBlock slot, problem.position⟩] := by
  have member : problem ∈ (outline source).problems := by
    rw [split]
    exact List.mem_append_right _ List.mem_cons_self
  rcases exists_stopsAt member stops with ⟨finished, last, stop, here⟩
  have notBefore := not_mem_of_stops stops stop.not_stops
  have notBehind := not_mem_of_stops stops (StopsAt.not_stops_seconds finished last)
  have rest := ((List.append_cons_inj_of_notMem notBefore notBehind).mp
    (stop.problems_eq.symm.trans split)).2.2.symm
  cases stop.second?_eq with
  | inl none =>
      rw [StopsAt.seconds, none] at rest
      exact .inl rest
  | inr second =>
      rcases second with ⟨name, slot, missing, duplicate⟩
      rw [StopsAt.seconds, duplicate, ← here] at rest
      exact .inr ⟨name, slot, missing, rest⟩

end Documents

/-- The problems of every document are truthful. -/
theorem truthful_outline (document : String) :
    (outline document.toList).Truthful document := by
  have reported := Outline.reported document.toList
  have perm := (Outline.arranged document.toList).slots_perm
  constructor
  · exact reported.inOrder
  · intro problem member
    rcases reported.passed problem member with ⟨behind, split⟩
    rw [List.append_assoc] at split
    exact slice_of_eq_append split.symm
  · exact countP_stops_le_one document.toList
  · intro earlier problem later split stops
    exact later_of_stops split stops
  · intro problem member stops block stored behind
    rcases exists_stopsAt member stops with ⟨finished, last, stop, here⟩
    rw [here] at behind
    have about := stop.isAbout_of_mem (perm.mem_iff.mp stored) behind
    rw [← here] at about
    exact about
  · intro problem member name missing
    have stops : problem.defect.stops = true := by
      rw [missing]
      rfl
    rcases exists_stopsAt member stops with ⟨finished, last, stop, here⟩
    rw [missing] at stop
    have about := stop.exists_isAbout
    rw [← here, ← missing] at about
    exact about
  · intro problem _ block about
    rw [about.stop_eq, utf8ByteSize_eq_byteLength]
    rfl
  · exact reported.second

/-- The last element has no end tag and makes a second script. -/
example :
    (outline "<script>a</script><script>b".toList).problems =
      [⟨.missingEndTag "script", ⟨"<script>a</script>".toList⟩⟩,
        ⟨.duplicateBlock "script", ⟨"<script>a</script>".toList⟩⟩] := by
  decide +kernel

end ScriptView.Component
