import Mathlib.Data.List.Basic
import Mathlib.Data.List.Induction
import ScriptView.Location

/-!
# Written locations

The written form of a location says nothing twice: it is absolute, and it leads
down by names alone.
-/

namespace ScriptView

/-- The written form of a place: a slash alone, or names with a slash in front of
each. -/
structure IsCanonical (path : String) : Prop where
  absolute : path.toList.head? = some '/'
  noBackslash : '\\' ∉ path.toList
  noTrailing : path ≠ "/" → path.toList.getLast? ≠ some '/'
  segments : path ≠ "/" → ∀ segment ∈ (Location.segments path.toList).tail,
    segment ≠ [] ∧ segment ≠ ['.'] ∧ segment ≠ ['.', '.']

instance (path : String) : Decidable (IsCanonical path) :=
  decidable_of_iff (path.toList.head? = some '/' ∧ '\\' ∉ path.toList ∧
      (path ≠ "/" → path.toList.getLast? ≠ some '/') ∧
      (path ≠ "/" → ∀ segment ∈ (Location.segments path.toList).tail,
        segment ≠ [] ∧ segment ≠ ['.'] ∧ segment ≠ ['.', '.']))
    ⟨fun ⟨absolute, noBackslash, noTrailing, segments⟩ =>
        ⟨absolute, noBackslash, noTrailing, segments⟩,
      fun ⟨absolute, noBackslash, noTrailing, segments⟩ =>
        ⟨absolute, noBackslash, noTrailing, segments⟩⟩

theorem Name.eq_of_text {first second : Name} (same : first.text = second.text) :
    first = second := by
  cases first
  cases second
  cases same
  rfl

namespace Location

theorem upward_concat (location : Location) (name : Name) :
    upward (location ++ [name]) = (location ++ [name]) :: upward location := by
  induction location with
  | nil => rfl
  | cons first rest ih =>
      rw [List.cons_append, upward, ih, upward]
      rfl

theorem nodup_upward (location : Location) : location.upward.Nodup := by
  induction location using List.reverseRecOn with
  | nil => simp [upward]
  | append_singleton front name ih =>
      rw [upward_concat, List.nodup_cons]
      refine ⟨?_, ih⟩
      intro member
      exact absurd (mem_upward.mp member).length_le (by simp)

theorem length_upward (location : Location) : location.upward.length = location.length + 1 := by
  induction location with
  | nil => rfl
  | cons name rest ih => simp [upward, ih]

/-- What lies above the parent of a location lies above the location. -/
theorem prefix_of_prefix_dropLast {top location : Location} (above : top <+: location.dropLast) :
    top <+: location :=
  above.trans (List.dropLast_prefix location)

/-- Above the parent of a location is what is above the location and not the location
itself. -/
theorem prefix_dropLast_iff {place location : Location} (nonempty : location ≠ []) :
    place <+: location.dropLast ↔ place <+: location ∧ place ≠ location := by
  rcases List.eq_nil_or_concat location with rfl | ⟨front, name, rfl⟩
  · contradiction
  · rw [List.concat_eq_append, List.dropLast_concat, List.prefix_concat_iff]
    constructor
    · intro above
      refine ⟨.inr above, fun same => ?_⟩
      rw [same] at above
      exact absurd above.length_le (by simp)
    · rintro ⟨here | above, differs⟩
      · exact absurd here differs
      · exact above

/-- The places with a given parent are those with one more name. -/
theorem parent?_eq_some {location directory : Location} :
    location.parent? = some directory ↔ ∃ name, location = directory ++ [name] := by
  constructor
  · intro isParent
    rw [parent?] at isParent
    split at isParent
    · contradiction
    · next notRoot =>
      cases isParent
      exact ⟨location.getLast notRoot, (List.dropLast_append_getLast notRoot).symm⟩
  · rintro ⟨name, rfl⟩
    rw [parent?, if_neg (by simp [root]), List.dropLast_concat]

theorem order_self (location : Location) : order location location = .eq :=
  Std.ReflCmp.compare_self

/-! ## Moved locations -/

section Rebase

variable {source target : Location}

@[simp] theorem rebase_append (source target rest : Location) :
    rebase (source ++ rest) source target = target ++ rest := by
  rw [rebase, List.drop_left]

/-- Different places at or below another one end up in different places. -/
theorem rebase_injective {left right : Location} (leftFrom : source <+: left)
    (rightFrom : source <+: right) (same : left.rebase source target = right.rebase source target) :
    left = right := by
  rcases leftFrom with ⟨leftRest, rfl⟩
  rcases rightFrom with ⟨rightRest, rfl⟩
  rw [rebase_append, rebase_append] at same
  rw [List.append_cancel_left same]

theorem rebase_ne {location : Location} (isFrom : source <+: location) (differs : source ≠ target) :
    location.rebase source target ≠ location := by
  rcases isFrom with ⟨rest, rfl⟩
  rw [rebase_append]
  intro same
  exact differs (List.append_cancel_right same).symm

end Rebase

/-! ## Canonical paths -/

theorem not_mem_text_of_isSeparator (name : Name) {c : Char} (separates : isSeparator c = true) :
    c ∉ name.text.toList := by
  intro member
  rw [name.isName.2.2.2 c member] at separates
  contradiction

theorem mem_text {location : Location} {c : Char} (member : c ∈ location.text.toList) :
    c = '/' ∨ ∃ name ∈ location, c ∈ name.text.toList := by
  cases location with
  | nil => exact .inl (List.mem_singleton.mp member)
  | cons name rest =>
      rw [toList_text_cons, List.mem_flatMap] at member
      rcases member with ⟨other, isThere, inside⟩
      rcases List.mem_cons.mp inside with slash | inName
      · exact .inl slash
      · exact .inr ⟨other, isThere, inName⟩

theorem toList_text_of_ne_nil {location : Location} (nonempty : location ≠ []) :
    location.text.toList = location.flatMap fun name => '/' :: name.text.toList := by
  cases location with
  | nil => contradiction
  | cons name rest => exact toList_text_cons name rest

theorem toList_text_concat (front : Location) (name : Name) :
    (text (front ++ [name])).toList =
      (front.flatMap fun name => '/' :: name.text.toList) ++ '/' :: name.text.toList := by
  cases front with
  | nil =>
      rw [List.nil_append, toList_text_cons]
      simp
  | cons first rest =>
      rw [List.cons_append, toList_text_cons, ← List.cons_append, List.flatMap_append]
      simp

theorem segments_text_cons (name : Name) (rest : Location) :
    segments (text (name :: rest)).toList =
      [] :: (name :: rest).map fun name => name.text.toList := by
  rw [toList_text_cons]
  have noChar : ∀ c ∈ ([] : List Char), isSeparator c = false := fun _ member => nomatch member
  exact segments_append_names noChar (name :: rest)

/-- The written form of every location is canonical. -/
theorem isCanonical_text (location : Location) : IsCanonical location.text := by
  constructor
  · cases location with
    | nil => rfl
    | cons name rest =>
        rw [toList_text_cons]
        rfl
  · intro member
    rcases mem_text member with slash | ⟨name, _, inName⟩
    · contradiction
    · exact not_mem_text_of_isSeparator name rfl inName
  · intro notRoot
    rcases List.eq_nil_or_concat location with rfl | ⟨front, name, rfl⟩
    · contradiction
    · have nonempty : name.text.toList ≠ [] := fun nothing =>
        name.isName.1 (String.toList_eq_nil_iff.mp nothing)
      rw [List.concat_eq_append, toList_text_concat, List.append_cons, List.getLast?_append_of_ne_nil _ nonempty]
      intro last
      exact not_mem_text_of_isSeparator name rfl (List.mem_of_getLast? last)
  · intro notRoot segment member
    cases location with
    | nil => contradiction
    | cons name rest =>
        rw [segments_text_cons, List.tail_cons, List.mem_map] at member
        rcases member with ⟨other, _, rfl⟩
        rcases other.isName with ⟨notEmpty, notDot, notDots, _⟩
        exact ⟨fun same => notEmpty (String.toList_injective same),
          fun same => notDot (String.toList_injective same),
          fun same => notDots (String.toList_injective same)⟩

/-! ## Below in written forms -/

/-- What the written forms of all places below a directory start with. -/
def belowText (directory : Location) : String :=
  if directory = root then "/" else directory.text ++ "/"

theorem toList_belowText (directory : Location) :
    directory.belowText.toList =
      (directory.flatMap fun name => '/' :: name.text.toList) ++ ['/'] := by
  cases directory with
  | nil => rfl
  | cons first others =>
      have notRoot : first :: others ≠ root := List.cons_ne_nil first others
      rw [belowText, if_neg notRoot, String.toList_append, toList_text_cons]
      rfl

/-- Names with a slash in front of each are names with slashes between them, behind one
more slash. -/
theorem slash_intercalate {names : List (List Char)} (nonempty : names ≠ []) :
    '/' :: ['/'].intercalate names = names.flatMap ('/' :: ·) := by
  induction names with
  | nil => contradiction
  | cons first rest ih =>
      cases rest with
      | nil => simp
      | cons second others =>
          rw [List.intercalate_cons_cons, List.flatMap_cons, ← ih (List.cons_ne_nil _ _)]
          simp

/-- A name ends where the slash behind it is. -/
theorem eq_and_prefix_of_slash {first second rest behind : List Char} (firstPlain : '/' ∉ first)
    (secondPlain : '/' ∉ second) (stops : ∀ c ∈ behind.head?, c = '/')
    (above : first ++ '/' :: rest <+: second ++ behind) :
    first = second ∧ '/' :: rest <+: behind := by
  induction first generalizing second with
  | nil =>
      cases second with
      | nil => exact ⟨rfl, above⟩
      | cons c others =>
          obtain ⟨same, -⟩ := List.cons_prefix_cons.mp above
          rw [same] at secondPlain
          exact absurd List.mem_cons_self secondPlain
  | cons c others ih =>
      cases second with
      | nil =>
          cases behind with
          | nil => exact absurd (List.prefix_nil.mp above) (List.cons_ne_nil _ _)
          | cons d further =>
              obtain ⟨same, -⟩ := List.cons_prefix_cons.mp above
              rw [same, stops d rfl] at firstPlain
              exact absurd List.mem_cons_self firstPlain
      | cons d further =>
          obtain ⟨same, aboveOthers⟩ := List.cons_prefix_cons.mp above
          rw [List.mem_cons, not_or] at firstPlain secondPlain
          obtain ⟨sameOthers, inside⟩ := ih firstPlain.2 secondPlain.2 aboveOthers
          exact ⟨by rw [same, sameOthers], inside⟩

/-- Names in a row, each with a slash in front, start with others and one more slash
exactly if they start with these names and go on. -/
theorem prefix_names_iff (directory place : Location) :
    (directory.flatMap fun name => '/' :: name.text.toList) ++ ['/'] <+:
        (place.flatMap fun name => '/' :: name.text.toList) ↔
      directory <+: place ∧ directory ≠ place := by
  induction directory generalizing place with
  | nil => cases place <;> simp
  | cons name rest ih =>
      cases place with
      | nil => simp
      | cons other more =>
          rw [List.flatMap_cons, List.flatMap_cons, List.append_assoc, List.cons_append,
            List.cons_append, List.cons_prefix_cons, List.cons_prefix_cons, ne_eq, List.cons.injEq]
          constructor
          · rintro ⟨-, above⟩
            obtain ⟨further, starts⟩ : ∃ further,
                (rest.flatMap fun name => '/' :: name.text.toList) ++ ['/'] = '/' :: further := by
              cases rest <;> exact ⟨_, rfl⟩
            have stops : ∀ c ∈ (more.flatMap fun name => '/' :: name.text.toList).head?, c = '/' := by
              cases more <;> simp
            rw [starts] at above
            obtain ⟨sameText, inside⟩ := eq_and_prefix_of_slash
              (not_mem_text_of_isSeparator name rfl) (not_mem_text_of_isSeparator other rfl) stops above
            rw [← starts] at inside
            obtain ⟨aboveRest, differs⟩ := (ih more).mp inside
            exact ⟨⟨Name.eq_of_text (String.toList_injective sameText), aboveRest⟩,
              fun both => differs both.2⟩
          · rintro ⟨⟨rfl, above⟩, differs⟩
            have inside := (ih more).mpr ⟨above, fun same => differs ⟨rfl, same⟩⟩
            exact ⟨rfl, (List.prefix_append_right_inj _).mpr inside⟩

/-- A place is at or below a directory exactly if it is the directory or its written
form starts with the directory's and a slash. -/
theorem prefix_iff_text (directory place : Location) :
    directory <+: place ↔ place = directory ∨ directory.belowText.toList <+: place.text.toList := by
  cases directory with
  | nil =>
      have slash : '/' :: [] <+: place.text.toList := by
        cases place with
        | nil => exact List.prefix_refl _
        | cons name rest =>
            rw [toList_text_cons]
            exact List.cons_prefix_cons.mpr ⟨rfl, List.nil_prefix⟩
      exact iff_of_true List.nil_prefix (.inr slash)
  | cons first others =>
      rw [toList_belowText]
      cases place with
      | nil =>
          have slash : (text []).toList = ['/'] := rfl
          simp [slash, List.cons_prefix_cons]
      | cons name rest =>
          rw [toList_text_cons, prefix_names_iff]
          by_cases same : name :: rest = first :: others
          · rw [same]
            simp
          · simp only [same, Ne.symm same, ne_eq, not_false_eq_true, and_true, false_or]

/-! ## Paths from a directory -/

section Below

variable {directory place : Location}

/-- The path from a directory to a place below it. -/
def textBelow (place directory : Location) : String :=
  String.intercalate "/" ((place.drop directory.length).map Name.text)

theorem text_append (directory : Location) {names : Location} (nonempty : names ≠ []) :
    text (directory ++ names) =
      directory.belowText ++ String.intercalate "/" (names.map Name.text) := by
  apply String.toList_injective
  have namesToo : names.map (fun name => name.text.toList) ≠ [] := by simpa using nonempty
  have slash : "/".toList = ['/'] := rfl
  rw [toList_text_of_ne_nil (by simp [nonempty]), String.toList_append, toList_belowText,
    String.toList_intercalate, List.map_map, slash, List.append_assoc, List.singleton_append]
  change _ = _ ++ '/' :: ['/'].intercalate (names.map fun name => name.text.toList)
  rw [slash_intercalate namesToo, List.flatMap_append, List.flatMap_map]

/-- The written form of a place is that of a directory above it with the path from
there. -/
theorem text_eq_append_textBelow (below : place.isBelow directory = true) :
    place.text = directory.belowText ++ place.textBelow directory := by
  obtain ⟨above, differs⟩ := isBelow_iff.mp below
  obtain ⟨names, rfl⟩ := above
  have nonempty : names ≠ [] := by
    intro nothing
    rw [nothing, List.append_nil] at differs
    exact differs rfl
  rw [textBelow, List.drop_left]
  exact text_append directory nonempty

/-- What is written with a slash behind a directory is below it. -/
theorem isBelow_of_text_eq {tail : String} (written : place.text = directory.belowText ++ tail)
    (notRoot : place ≠ root) : place.isBelow directory = true := by
  have starts : directory.belowText.toList <+: place.text.toList := by
    rw [written, String.toList_append]
    exact List.prefix_append _ _
  apply isBelow_iff.mpr
  refine ⟨(prefix_iff_text directory place).mpr (.inr starts), ?_⟩
  intro same
  rw [same] at written notRoot
  have lengths := congrArg String.length written
  rw [belowText, if_neg notRoot, String.length_append, String.length_append] at lengths
  have slash : "/".length = 1 := rfl
  omega

/-- What is below a directory is in it or below something that is in it. -/
theorem isBelow_iff_exists :
    place.isBelow directory = true ↔
      ∃ name, place = directory ++ [name] ∨ place.isBelow (directory ++ [name]) = true := by
  rw [isBelow_iff]
  constructor
  · intro below
    obtain ⟨⟨rest, rfl⟩, differs⟩ := below
    cases rest with
    | nil => exact absurd (List.append_nil directory) differs
    | cons name more =>
        refine ⟨name, ?_⟩
        cases more with
        | nil => exact .inl rfl
        | cons next others =>
            right
            rw [isBelow_iff]
            exact ⟨⟨next :: others, by simp⟩, by simp⟩
  · intro inside
    obtain ⟨name, here | deeper⟩ := inside
    · rw [here]
      exact ⟨List.prefix_append _ _, by simp⟩
    · obtain ⟨above, -⟩ := isBelow_iff.mp deeper
      refine ⟨(List.prefix_append _ _).trans above, ?_⟩
      intro same
      rw [same] at above
      exact absurd above.length_le (by simp)

end Below

/-! ## Segments -/

/-- No segment of a path has a separator in it. -/
theorem isSeparator_of_mem_segments {path segment : List Char}
    (member : segment ∈ segments path) : ∀ c ∈ segment, isSeparator c = false := by
  induction path generalizing segment with
  | nil =>
      rw [segments, List.mem_singleton] at member
      simp [member]
  | cons d rest ih =>
      rw [segments] at member
      split at member
      · cases List.mem_cons.mp member with
        | inl here => simp [here]
        | inr later => exact ih later
      · next plain =>
        have notHere : isSeparator d = false := Bool.eq_false_iff.mpr plain
        split at member
        · rw [List.mem_singleton] at member
          simpa [member] using notHere
        · next first others split =>
          rw [split] at ih
          cases List.mem_cons.mp member with
          | inl here =>
              rw [here, List.forall_mem_cons]
              exact ⟨notHere, ih List.mem_cons_self⟩
          | inr later => exact ih (List.mem_cons_of_mem _ later)

theorem segments_ne_nil (path : List Char) : segments path ≠ [] := by
  cases path with
  | nil => exact List.cons_ne_nil _ _
  | cons c rest =>
      rw [segments]
      split
      · exact List.cons_ne_nil _ _
      · split
        · exact List.cons_ne_nil _ _
        · exact List.cons_ne_nil _ _

/-- No segment reaches over a separator. -/
theorem segments_append_separator {c : Char} (separates : isSeparator c = true)
    (front rest : List Char) :
    segments (front ++ c :: rest) = segments front ++ segments rest := by
  induction front with
  | nil => simp [segments, separates]
  | cons d others ih =>
      rw [List.cons_append, segments, segments, ih]
      split
      · rfl
      · cases split : segments others with
        | nil => exact absurd split (segments_ne_nil others)
        | cons segment more => rfl

/-- Behind the names of a location a path has the segments that it has alone. -/
theorem segments_names_append {segment : List Char}
    (plain : ∀ c ∈ segment, isSeparator c = false) (location : Location) (rest : List Char) :
    segments (segment ++
        ((location.flatMap fun name => '/' :: name.text.toList) ++ '/' :: rest)) =
      segment :: (location.map fun name => name.text.toList) ++ segments rest := by
  rw [← List.append_assoc, segments_append_separator rfl, segments_append_names plain]

/-- Behind the path of a directory, a path leads from there. -/
theorem resolve_belowText_append (current location : Location) (path : String) :
    current.resolve (location.belowText ++ path) =
      (segments path.toList).foldl enter location := by
  have whole : (location.belowText ++ path).toList =
      (location.flatMap fun name => '/' :: name.text.toList) ++ '/' :: path.toList := by
    rw [String.toList_append, toList_belowText, List.append_assoc]
    rfl
  have leading : ((location.belowText ++ path).toList.head?.any isSeparator) = true := by
    rw [whole]
    cases location <;> rfl
  have split := @segments_names_append [] (by simp) location path.toList
  rw [List.nil_append, ← whole] at split
  rw [resolve, leading, if_pos rfl, split, List.cons_append, List.foldl_cons,
    List.foldl_append]
  have stays : enter root [] = root := rfl
  rw [stays, foldl_enter_names]
  rfl

/-- A segment leads up by at most one name. -/
theorem length_le_enter (location : Location) (segment : List Char) :
    location.length ≤ (location.enter segment).length + 1 := by
  rw [enter]
  split
  · rw [List.length_dropLast]
    omega
  · split
    · rw [List.length_append]
      omega
    · omega

theorem length_le_foldl_enter (location : Location) (row : List (List Char)) :
    location.length ≤ (row.foldl enter location).length + row.length := by
  induction row generalizing location with
  | nil => exact Nat.le_refl _
  | cons segment rest ih =>
      have first := location.length_le_enter segment
      have others := ih (location.enter segment)
      rw [List.foldl_cons, List.length_cons]
      omega

/-- From a directory that is deep enough, a path does not lead to the root. -/
theorem exists_resolve_ne_root (current : Location) (path : String) :
    ∃ directory : Location, current.resolve (directory.belowText ++ path) ≠ root := by
  let name : Name := ⟨"a", by decide⟩
  let directory : Location := List.replicate ((segments path.toList).length + 1) name
  refine ⟨directory, fun isRoot => ?_⟩
  have long := directory.length_le_foldl_enter (segments path.toList)
  rw [← resolve_belowText_append current, isRoot, List.length_replicate, root,
    List.length_nil] at long
  omega

/-- Without backslashes the segments of a path are what its slashes separate. -/
theorem segments_eq_splitOn {path : List Char} (noBackslash : '\\' ∉ path) :
    segments path = path.splitOn '/' := by
  induction path with
  | nil => rfl
  | cons c rest ih =>
      rw [List.mem_cons, not_or] at noBackslash
      obtain ⟨notHere, notLater⟩ := noBackslash
      have separates : isSeparator c = (c == '/') := by
        simp [isSeparator, Ne.symm notHere]
      rw [segments, ih notLater, separates, List.splitOn_cons_eq_if_modifyHead]
      cases split : rest.splitOn '/' with
      | nil => exact absurd split (List.splitOn_ne_nil _ _)
      | cons first others => rfl

/-- Segments that are names lead down a location. -/
theorem exists_names {row : List (List Char)}
    (names : ∀ segment ∈ row, IsName (String.ofList segment)) :
    ∃ location : Location, row = location.map fun name => name.text.toList := by
  induction row with
  | nil => exact ⟨[], rfl⟩
  | cons segment rest ih =>
      obtain ⟨location, rfl⟩ := ih fun other member => names other (List.mem_cons_of_mem _ member)
      refine ⟨⟨_, names segment List.mem_cons_self⟩ :: location, ?_⟩
      rw [List.map_cons, String.toList_ofList]

/-- A path whose segments are names is a row of names with slashes between them. -/
theorem exists_intercalate {path : List Char} (noBackslash : '\\' ∉ path)
    (names : ∀ segment ∈ segments path, IsName (String.ofList segment)) :
    ∃ location : Location, location ≠ [] ∧
      segments path = location.map (fun name => name.text.toList) ∧
      path = ['/'].intercalate (location.map fun name => name.text.toList) := by
  obtain ⟨location, split⟩ := exists_names names
  have isSplit := segments_eq_splitOn noBackslash
  refine ⟨location, ?_, split, ?_⟩
  · intro nothing
    rw [split, nothing] at isSplit
    exact List.splitOn_ne_nil _ _ isSplit.symm
  · rw [← split, isSplit, List.intercalate_splitOn]

/-- A canonical path is the written form of a location. -/
theorem exists_text_of_isCanonical {path : String} (canonical : IsCanonical path) :
    ∃ location : Location, location.text = path := by
  by_cases isRoot : path = "/"
  · exact ⟨root, isRoot.symm⟩
  · obtain ⟨rest, chars⟩ : ∃ rest, path.toList = '/' :: rest :=
      List.head?_eq_some_iff.mp canonical.absolute
    have noBackslash := canonical.noBackslash
    have segmentsNamed := canonical.segments isRoot
    rw [chars, List.mem_cons, not_or] at noBackslash
    rw [chars] at segmentsNamed
    have names : ∀ segment ∈ segments rest, IsName (String.ofList segment) := by
      intro segment member
      obtain ⟨notEmpty, notDot, notDots⟩ := segmentsNamed segment member
      have noSeparator := isSeparator_of_mem_segments member
      refine ⟨?_, ?_, ?_, by rwa [String.toList_ofList]⟩
      · intro same
        exact notEmpty (String.ofList_injective same)
      · intro same
        exact notDot (String.ofList_injective same)
      · intro same
        exact notDots (String.ofList_injective same)
    obtain ⟨location, nonempty, -, isRow⟩ := exists_intercalate noBackslash.2 names
    have rowNonempty : location.map (fun name => name.text.toList) ≠ [] := by simpa using nonempty
    refine ⟨location, String.toList_injective ?_⟩
    rw [toList_text_of_ne_nil nonempty, chars, isRow, slash_intercalate rowNonempty,
      List.flatMap_map]

end Location

end ScriptView
