/-!
# Endings of strings

Whether a string ends with another, and what is left of it without that ending.
Both are read off the characters of the strings.
-/

namespace ScriptView.Text

/-- Whether a string ends with another one. -/
def endsWith (text ending : String) : Bool :=
  ending.toList.isSuffixOf text.toList

/-- A string without an ending, if it has that ending. -/
def dropEnding? (text ending : String) : Option String :=
  if endsWith text ending then
    some (String.ofList (text.toList.take (text.length - ending.length)))
  else none

theorem endsWith_iff {text ending : String} :
    endsWith text ending = true ↔ ∃ front : String, text = front ++ ending := by
  rw [endsWith, List.isSuffixOf_iff_suffix]
  constructor
  · rintro ⟨front, eq⟩
    exact ⟨String.ofList front, String.toList_injective (by simp [eq])⟩
  · rintro ⟨front, rfl⟩
    exact ⟨front.toList, by simp⟩

@[simp] theorem endsWith_append (front ending : String) :
    endsWith (front ++ ending) ending = true :=
  endsWith_iff.mpr ⟨front, rfl⟩

@[simp] theorem dropEnding?_append (front ending : String) :
    dropEnding? (front ++ ending) ending = some front := by
  have taken : (front.toList ++ ending.toList).take front.length = front.toList :=
    List.take_left' String.length_toList
  simp [dropEnding?, String.length_append, taken]

/-- Dropping an ending undoes appending it. -/
theorem dropEnding?_eq_some_iff {text ending front : String} :
    dropEnding? text ending = some front ↔ text = front ++ ending := by
  constructor
  · intro dropped
    by_cases ends : endsWith text ending = true
    · obtain ⟨other, rfl⟩ := endsWith_iff.mp ends
      rw [dropEnding?_append] at dropped
      cases dropped
      rfl
    · simp [dropEnding?, ends] at dropped
  · rintro rfl
    exact dropEnding?_append front ending

end ScriptView.Text
