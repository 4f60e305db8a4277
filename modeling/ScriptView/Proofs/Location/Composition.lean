import ScriptView.Proofs.Location

/-!
# Paths one behind the other

Where a path leads is written in canonical form, and a path in this form leads to what it
says, from wherever one starts. A path is followed segment by segment, and the place that
is reached is all that the next segment sees of those before it. Two paths with a slash
between them therefore lead where the second one leads from the end of the first, also if
segments of the second lead up out of the first and are stopped at the root.
-/

namespace ScriptView.Location

variable {current : Location} {first second : String}

/-- A canonical path is the written form of a location, and nothing else is canonical. -/
theorem isCanonical_iff_exists_text {path : String} :
    IsCanonical path ↔ ∃ location : Location, location.text = path := by
  constructor
  · exact exists_text_of_isCanonical
  · intro written
    cases written with
    | intro location same =>
        rw [← same]
        exact isCanonical_text location

/-- A canonical path leads to the place that it is written for. -/
theorem text_resolve_of_isCanonical {path : String} (canonical : IsCanonical path) :
    (current.resolve path).text = path := by
  cases exists_text_of_isCanonical canonical with
  | intro location same => rw [← same, resolve_text]

/-! ## Following two paths -/

/-- A path without a leading separator is followed from the directory. -/
theorem resolve_of_relative (relative : ∀ c ∈ second.toList.head?, c ≠ '/' ∧ c ≠ '\\') :
    current.resolve second = (segments second.toList).foldl enter current := by
  have noSeparator : second.toList.head?.any isSeparator = false := by
    cases head : second.toList.head? with
    | none => rfl
    | some c =>
        have differs := relative c head
        simp [isSeparator, differs]
  rw [resolve, noSeparator, if_neg Bool.false_ne_true]

/-- What stands behind a path and a slash is followed from where the path leads. An empty
path would make the slash a leading one. -/
theorem resolve_append_slash (nonempty : first ≠ "") :
    current.resolve (first ++ "/" ++ second) =
      (segments second.toList).foldl enter (current.resolve first) := by
  have slash : "/".toList = ['/'] := rfl
  have whole : (first ++ "/" ++ second).toList = first.toList ++ '/' :: second.toList := by
    rw [String.toList_append, String.toList_append, slash, List.append_assoc]
    rfl
  have sameHead : (first ++ "/" ++ second).toList.head? = first.toList.head? := by
    rw [whole]
    cases chars : first.toList with
    | nil => exact absurd (String.toList_eq_nil_iff.mp chars) nonempty
    | cons c rest => rfl
  have split := segments_append_separator (show isSeparator '/' = true from rfl)
    first.toList second.toList
  rw [resolve, sameHead, whole, split, List.foldl_append]
  rfl

/-- The directories that a path can lead from are written by the canonical paths. From
each of them every path leads to a place that is written in canonical form, and a canonical
path leads to the place that it names. A path that goes on behind another one leads where
it leads from the end of the other. -/
theorem resolve_composes :
    (∀ directory, IsCanonical directory ↔ ∃ current : Location, current.text = directory) ∧
      ∀ current : Location,
        (∀ path, IsCanonical (current.resolve path).text) ∧
        (∀ path, IsCanonical path → (current.resolve path).text = path) ∧
        ∀ first second : String, first ≠ "" →
          (∀ c ∈ second.toList.head?, c ≠ '/' ∧ c ≠ '\\') →
          (current.resolve first).resolve second = current.resolve (first ++ "/" ++ second) := by
  constructor
  · intro directory
    exact isCanonical_iff_exists_text
  · intro current
    refine ⟨?_, ?_, ?_⟩
    · intro path
      exact isCanonical_text (current.resolve path)
    · intro path canonical
      exact text_resolve_of_isCanonical canonical
    · intro first second nonempty relative
      rw [resolve_append_slash nonempty]
      exact resolve_of_relative relative

/-- The second path leads up out of the first one. -/
theorem resolve_composes_upward :
    ∃ current : Location, current.text = "/p/q" ∧
      IsCanonical "/r/s" ∧ (current.resolve "/r/s").text = "/r/s" ∧
      (current.resolve "..\\x/./../y").text = "/p/y" ∧
      ((current.resolve "..\\x/./../y").resolve "../../../z\\").text = "/z" ∧
      (current.resolve "..\\x/./../y").resolve "../../../z\\" =
        current.resolve ("..\\x/./../y" ++ "/" ++ "../../../z\\") := by
  have canonical : IsCanonical "/r/s" := by decide +kernel
  have isDirectory : IsCanonical "/p/q" := by decide +kernel
  obtain ⟨written, laws⟩ := resolve_composes
  obtain ⟨current, same⟩ := (written "/p/q").mp isDirectory
  obtain ⟨-, unchanged, composes⟩ := laws current
  obtain rfl : current = [⟨"p", by decide⟩, ⟨"q", by decide⟩] := text_injective same
  refine ⟨_, same, canonical, unchanged "/r/s" canonical, ?_, ?_, ?_⟩
  · decide +kernel
  · decide +kernel
  · exact composes "..\\x/./../y" "../../../z\\" (by decide) (by simp)

end ScriptView.Location
