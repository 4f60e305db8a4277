/-!
# Positions in a text

A position is given by the text before it. Its byte offset in UTF-8, its line
and its column are read off that text; lines and columns count from one, and a
column counts characters.
-/

namespace ScriptView.Text

/-- The number of bytes that a text takes in UTF-8. -/
def byteLength : List Char → Nat
  | [] => 0
  | c :: rest => c.utf8Size + byteLength rest

@[simp] theorem byteLength_nil : byteLength [] = 0 := rfl

@[simp] theorem byteLength_cons (c : Char) (rest : List Char) :
    byteLength (c :: rest) = c.utf8Size + byteLength rest := rfl

@[simp] theorem byteLength_append (front back : List Char) :
    byteLength (front ++ back) = byteLength front + byteLength back := by
  induction front with
  | nil => simp
  | cons c rest ih => simp [ih, Nat.add_assoc]

/-- A place between two characters of a text. -/
structure Position where
  before : List Char
  deriving DecidableEq, Repr

namespace Position

/-- The number of bytes before a position. -/
def offset (position : Position) : Nat :=
  byteLength position.before

/-- The line of a position: one more than the line feeds before it. -/
def line (position : Position) : Nat :=
  position.before.count '\n' + 1

/-- The column of a position: one more than the characters behind the last line
feed before it. -/
def column (position : Position) : Nat :=
  (position.before.reverse.takeWhile (· != '\n')).length + 1

/-- The position behind a further text. -/
def advance (position : Position) (passed : List Char) : Position :=
  ⟨position.before ++ passed⟩

@[simp] theorem offset_advance (position : Position) (passed : List Char) :
    (position.advance passed).offset = position.offset + byteLength passed := by
  simp [advance, offset]

end Position

end ScriptView.Text
