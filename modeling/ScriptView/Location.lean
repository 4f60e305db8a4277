import Std.Data.TreeMap

/-!
# Locations

A location is a place in a tree of directories, given by the names on the way
down from the root; the root is the empty list. A name is never empty, never
one of the two dot segments and holds no separator, so that every list of names
is a location and every location is written in one way. A path is a text that
leads from one location to another.
-/

namespace ScriptView

/-- Slash and backslash separate the segments of a path. -/
def isSeparator (c : Char) : Bool :=
  c == '/' || c == '\\'

/-- Whether a segment of a path is the name of an entry. -/
def IsName (segment : String) : Prop :=
  segment ≠ "" ∧ segment ≠ "." ∧ segment ≠ ".." ∧ ∀ c ∈ segment.toList, isSeparator c = false

instance (segment : String) : Decidable (IsName segment) :=
  letI := List.decidableBAll (fun c => isSeparator c = false) segment.toList
  inferInstanceAs (Decidable (_ ∧ _))

/-- The name of an entry in a directory. -/
structure Name where
  text : String
  isName : IsName text
  deriving DecidableEq

/-- A place in a tree of directories. -/
abbrev Location := List Name

namespace Location

/-- The topmost directory. -/
def root : Location := []

/-- The written form of a location: its names, each behind a slash. -/
def text (location : Location) : String :=
  match location with
  | [] => "/"
  | _ => String.join (location.map fun name => "/" ++ name.text)

/-- The directory that a location is in. The root is in none. -/
def parent? (location : Location) : Option Location :=
  if location = root then none else some location.dropLast

/-- Whether a location lies in the directory of another, at any depth. -/
def isBelow (location directory : Location) : Bool :=
  directory.isPrefixOf location && location != directory

/-- Whether a location is another or lies below it. -/
def isAtOrBelow (location top : Location) : Bool :=
  top.isPrefixOf location

/-- A location with all directories above it, from itself up to the root. -/
def upward : Location → List Location
  | [] => [[]]
  | name :: rest => (upward rest).map (name :: ·) ++ [[]]

/-- Where a location ends up when the tree at or above it moves. -/
def rebase (location source target : Location) : Location :=
  target ++ location.drop source.length

/-- The segments of a path. There is one more than there are separators. -/
def segments : List Char → List (List Char)
  | [] => [[]]
  | c :: rest =>
      if isSeparator c then [] :: segments rest
      else
        match segments rest with
        | [] => [[c]]
        | first :: others => (c :: first) :: others

/-- Follow one segment of a path: two dots lead up, a name leads down, and an
empty segment or a single dot leads nowhere. -/
def enter (location : Location) (segment : List Char) : Location :=
  if segment = ['.', '.'] then location.dropLast
  else if isName : IsName (String.ofList segment) then location ++ [⟨_, isName⟩]
  else location

/-- Where a path leads from a directory. A path with a leading separator leads
from the root. -/
def resolve (current : Location) (path : String) : Location :=
  let start := if path.toList.head?.any isSeparator then root else current
  (segments path.toList).foldl enter start

/-! ## Above and below -/

theorem isAtOrBelow_iff {location top : Location} :
    location.isAtOrBelow top = true ↔ top <+: location :=
  List.isPrefixOf_iff_prefix

theorem isBelow_iff {location directory : Location} :
    location.isBelow directory = true ↔ directory <+: location ∧ location ≠ directory := by
  simp [isBelow, List.isPrefixOf_iff_prefix]

/-- Upward from a location are the places that it is at or below. -/
theorem mem_upward {place location : Location} : place ∈ location.upward ↔ place <+: location := by
  induction location generalizing place with
  | nil => simp [upward]
  | cons name rest ih =>
    cases place with
    | nil => simp [upward]
    | cons first others =>
      rw [upward, List.cons_prefix_cons, ← ih]
      simp [eq_comm (a := name), and_comm (a := _ ∈ _), and_assoc]

/-! ## Written forms

Following the written form of a location leads to that location, from wherever
one starts. Two locations are therefore never written in the same way. -/

@[simp] theorem text_root : text root = "/" := rfl

theorem toList_text_cons (name : Name) (rest : Location) :
    (text (name :: rest)).toList =
      (name :: rest).flatMap fun name => '/' :: name.text.toList := by
  simp [text, String.toList_join, List.flatMap_map]

/-- A segment ends at the first separator. -/
theorem segments_append_slash {segment : List Char}
    (plain : ∀ c ∈ segment, isSeparator c = false) (rest : List Char) :
    segments (segment ++ '/' :: rest) = segment :: segments rest := by
  induction segment with
  | nil => rfl
  | cons c others ih =>
    rw [List.cons_append, segments, ih fun d member => plain d (List.mem_cons_of_mem c member)]
    simp [plain c List.mem_cons_self]

/-- A text without separators is one segment. -/
theorem segments_of_plain {segment : List Char}
    (plain : ∀ c ∈ segment, isSeparator c = false) : segments segment = [segment] := by
  induction segment with
  | nil => rfl
  | cons c others ih =>
    rw [segments, ih fun d member => plain d (List.mem_cons_of_mem c member)]
    simp [plain c List.mem_cons_self]

theorem segments_append_names {segment : List Char}
    (plain : ∀ c ∈ segment, isSeparator c = false) (location : Location) :
    segments (segment ++ location.flatMap fun name => '/' :: name.text.toList) =
      segment :: location.map fun name => name.text.toList := by
  induction location generalizing segment with
  | nil => simpa using segments_of_plain plain
  | cons name rest ih =>
    rw [List.flatMap_cons, List.cons_append, segments_append_slash plain, ih name.isName.2.2.2,
      List.map_cons]

/-- A name leads into the directory. -/
@[simp] theorem enter_name (location : Location) (name : Name) :
    location.enter name.text.toList = location ++ [name] := by
  have notDots : name.text.toList ≠ ['.', '.'] := fun eq =>
    name.isName.2.2.1 (String.toList_injective eq)
  simp [enter, notDots, name.isName]

theorem foldl_enter_names (start location : Location) :
    (location.map fun name => name.text.toList).foldl enter start = start ++ location := by
  induction location generalizing start with
  | nil => simp
  | cons name rest ih => rw [List.map_cons, List.foldl_cons, enter_name, ih]; simp

/-- The written form of a location leads to it. -/
@[simp] theorem resolve_text (current location : Location) :
    resolve current location.text = location := by
  cases location with
  | nil => simp [resolve, text, segments, isSeparator, enter, IsName, root]
  | cons name rest =>
    have split := @segments_append_names [] (by simp) (name :: rest)
    rw [List.nil_append, ← toList_text_cons] at split
    have leading : (text (name :: rest)).toList.head?.any isSeparator = true := by
      rw [toList_text_cons]; rfl
    simp only [resolve, leading, split, List.foldl_cons, if_true]
    have := foldl_enter_names root (name :: rest)
    simpa [enter, IsName, root] using this

theorem text_injective {left right : Location} (same : left.text = right.text) :
    left = right := by
  rw [← resolve_text root left, same, resolve_text]

/-- Locations are listed in the order of their written forms. -/
def order (left right : Location) : Ordering :=
  compare left.text right.text

instance : Std.TransCmp order :=
  inferInstanceAs (Std.TransCmp (compareOn text))

instance : Std.LawfulEqCmp order where
  eq_of_compare same := text_injective (Std.LawfulEqOrd.eq_of_compare same)

end Location

end ScriptView
