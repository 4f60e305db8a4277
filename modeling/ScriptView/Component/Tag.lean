import ScriptView.Text.Blank
import ScriptView.Text.Search

/-!
# Names, attributes and opening tags

An opening tag is read from just behind the element's name. Blanks, stray
slashes and stray equals signs separate attributes; an attribute is a flag or a
name with a value, which is quoted by either quote or runs up to a blank or the
end of the tag. The tag ends at `>` or, self-closing, at `/>`. Every reading
function returns the tail of the text that it did not consume.
-/

namespace ScriptView.Component

open Text

/-- The characters of an element's name behind its first letter. -/
def isNameChar (c : Char) : Bool :=
  c.isAlphanum || c == '-' || c == '_' || c == ':' || c == '.'

/-- The element name at the start of a text. It begins with an ASCII letter and
is empty if the text begins otherwise. -/
def nameAt (text : List Char) : List Char :=
  match text with
  | c :: _ => if c.isAlpha then text.takeWhile isNameChar else []
  | [] => []

/-- Whether a name ends right before this text. -/
def endsName : List Char → Bool
  | [] => true
  | c :: _ => c == '>' || c == '/' || isMarkupBlank c

/-- What an attribute says: nothing beyond its presence, or a text. -/
inductive AttributeValue where
  | flag
  | text (value : String)
  deriving DecidableEq, Repr

/-- The text of an attribute; a flag has none. -/
def AttributeValue.text? : AttributeValue → Option String
  | .flag => none
  | .text value => some value

/-- An attribute as a tag writes it. -/
structure Attribute where
  name : String
  value : AttributeValue
  deriving DecidableEq, Repr

/-- The attributes of one tag, in the order in which they are written. A name
may be written twice. -/
abbrev Attributes := List Attribute

namespace Attributes

/-- The value of the first attribute of this name: repetitions do not count. -/
def get? (attributes : Attributes) (name : String) : Option AttributeValue :=
  (attributes.find? (·.name == name)).map (·.value)

/-- Whether an attribute of this name is written. -/
def has (attributes : Attributes) (name : String) : Bool :=
  (attributes.get? name).isSome

/-- The attributes without repetitions, each with its first value. -/
def distinct : Attributes → Attributes
  | [] => []
  | first :: rest => first :: (distinct rest).filter (·.name != first.name)

/-- The attributes without repetitions, in the order of their names. -/
def sorted (attributes : Attributes) : Attributes :=
  attributes.distinct.mergeSort fun left right => decide (left.name ≤ right.name)

end Attributes

/-- The characters of an attribute's name. -/
def isAttributeNameChar (c : Char) : Bool :=
  !isMarkupBlank c && c != '=' && c != '>' && c != '/'

/-- The characters of a value without quotes. It may hold slashes. -/
def isBareValueChar (c : Char) : Bool :=
  !isMarkupBlank c && c != '>'

/-- A quoted value, from behind its opening quote; the closing quote is passed. -/
def quotedValue? (quote : Char) (text : List Char) : Option (String × List Char) :=
  match text.dropWhile (· != quote) with
  | [] => none
  | _ :: rest => some (String.ofList (text.takeWhile (· != quote)), rest)

/-- The value of an attribute, from behind the blanks that follow `=`. A value
without quotes may be empty. -/
def value? : List Char → Option (String × List Char)
  | [] => none
  | '"' :: rest => quotedValue? '"' rest
  | '\'' :: rest => quotedValue? '\'' rest
  | text => some (String.ofList (text.takeWhile isBareValueChar), text.dropWhile isBareValueChar)

/-- The attribute at the start of a text that begins with a character of its
name. A name without an equals sign behind it is a flag. -/
def readAttribute? (text : List Char) : Option (Attribute × List Char) :=
  let name := String.ofList (text.takeWhile isAttributeNameChar)
  let rest := text.dropWhile isAttributeNameChar
  match rest.dropWhile isMarkupBlank with
  | '=' :: behind =>
      (value? (behind.dropWhile isMarkupBlank)).map fun (value, rest) =>
        (⟨name, .text value⟩, rest)
  | _ => some (⟨name, .flag⟩, rest)

section Tails

theorem quotedValue?_suffix {quote : Char} {text rest : List Char} {value : String}
    (read : quotedValue? quote text = some (value, rest)) : rest <:+ text := by
  rw [quotedValue?] at read
  split at read
  · simp at read
  · next c tail eq =>
    cases read
    exact (List.suffix_cons c rest).trans (eq ▸ List.dropWhile_suffix _)

theorem value?_suffix {text rest : List Char} {value : String}
    (read : value? text = some (value, rest)) : rest <:+ text := by
  rw [value?.eq_def] at read
  split at read
  · simp at read
  · exact (quotedValue?_suffix read).trans (List.suffix_cons _ _)
  · exact (quotedValue?_suffix read).trans (List.suffix_cons _ _)
  · cases read
    exact List.dropWhile_suffix _

theorem readAttribute?_suffix {text rest : List Char} {found : Attribute}
    (read : readAttribute? text = some (found, rest)) :
    rest <:+ text.dropWhile isAttributeNameChar := by
  rw [readAttribute?] at read
  split at read
  · next behind eq =>
    obtain ⟨⟨value, tail⟩, readValue, same⟩ := Option.map_eq_some_iff.mp read
    cases same
    have behindSuffix : behind <:+ text.dropWhile isAttributeNameChar :=
      (List.suffix_cons '=' behind).trans (eq ▸ List.dropWhile_suffix _)
    exact ((value?_suffix readValue).trans (List.dropWhile_suffix _)).trans behindSuffix
  · cases read
    exact List.suffix_refl _

/-- Reading an attribute consumes at least the first character of its name. -/
theorem length_readAttribute?_lt {c : Char} {tail rest : List Char} {found : Attribute}
    (nameChar : isAttributeNameChar c = true)
    (read : readAttribute? (c :: tail) = some (found, rest)) :
    rest.length < (c :: tail).length := by
  have shorter := (readAttribute?_suffix read).length_le
  rw [List.dropWhile_cons_of_pos nameChar] at shorter
  have := (List.dropWhile_suffix isAttributeNameChar (l := tail)).length_le
  simp only [List.length_cons]
  omega

end Tails

/-- An opening tag without its name. -/
structure OpeningTag where
  attributes : Attributes
  selfClosing : Bool
  deriving DecidableEq, Repr

namespace OpeningTag

/-- Put an attribute in front of the ones already read. -/
def withAttribute (first : Attribute) (tag : OpeningTag) : OpeningTag :=
  { tag with attributes := first :: tag.attributes }

/-- The opening tag whose name ends right before this text, with the text
behind it. There is none if the text ends inside the tag. -/
def scan? (text : List Char) : Option (OpeningTag × List Char) :=
  match text with
  | [] => none
  | '>' :: rest => some (⟨[], false⟩, rest)
  | '/' :: '>' :: rest => some (⟨[], true⟩, rest)
  | c :: rest =>
      if nameChar : isAttributeNameChar c = true then
        match read : readAttribute? (c :: rest) with
        | none => none
        | some (first, tail) =>
            have : tail.length < rest.length + 1 := length_readAttribute?_lt nameChar read
            (scan? tail).map fun (tag, behind) => (tag.withAttribute first, behind)
      else
        scan? rest
termination_by text.length

/-- Scanning consumes at least the end of the tag. -/
theorem scan?_suffix {text rest : List Char} {tag : OpeningTag}
    (scanned : scan? text = some (tag, rest)) :
    rest <:+ text ∧ rest.length < text.length := by
  fun_induction scan? text generalizing tag rest with
  | case1 => simp at scanned
  | case2 tail =>
    cases scanned
    exact ⟨List.suffix_cons _ _, by simp⟩
  | case3 tail =>
    cases scanned
    exact ⟨(List.suffix_cons _ _).trans (List.suffix_cons _ _), by simp only [List.length_cons]; omega⟩
  | case4 => simp at scanned
  | case5 c tail _ _ nameChar first behind read shorter ih =>
    obtain ⟨⟨inner, last⟩, scannedInner, same⟩ := Option.map_eq_some_iff.mp scanned
    cases same
    obtain ⟨suffix, less⟩ := ih scannedInner
    have toText : behind <:+ c :: tail :=
      (readAttribute?_suffix read).trans (List.dropWhile_suffix _)
    exact ⟨suffix.trans toText, Nat.lt_trans less shorter⟩
  | case6 c tail _ _ _ ih =>
    obtain ⟨suffix, less⟩ := ih scanned
    exact ⟨suffix.trans (List.suffix_cons _ _), by simp only [List.length_cons]; omega⟩

end OpeningTag

end ScriptView.Component
