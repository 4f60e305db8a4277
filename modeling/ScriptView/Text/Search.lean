/-!
# Searching a text for a fixed word

A text under search is a list of characters, and a place in it is given by the
tail that starts there. `after?` finds the tail behind the first occurrence of
a word, and `before` recovers what was passed over to reach a tail; the two
together cut a text without losing a character.
-/

namespace ScriptView.Text

/-- The part of `whole` that stands before its tail `rest`. -/
def before (whole rest : List Char) : List Char :=
  whole.take (whole.length - rest.length)

/-- Nothing is lost when a text is cut at one of its tails. -/
theorem before_append {whole rest : List Char} (tail : rest <:+ whole) :
    before whole rest ++ rest = whole := by
  obtain ⟨front, rfl⟩ := tail
  simp [before]

@[simp] theorem before_append_right (front rest : List Char) :
    before (front ++ rest) rest = front := by
  simp [before]

/-- The text behind the first occurrence of `word`. -/
def after? (word : List Char) : List Char → Option (List Char)
  | [] => if word.isEmpty then some [] else none
  | c :: rest =>
      if word.isPrefixOf (c :: rest) then some ((c :: rest).drop word.length)
      else after? word rest

/-- What `after?` returns is a tail of the text, right behind the word. -/
theorem after?_eq_some {word text rest : List Char}
    (found : after? word text = some rest) : ∃ front, text = front ++ word ++ rest := by
  induction text with
  | nil =>
      rw [after?] at found
      split at found
      · next empty => exact ⟨[], by simp_all⟩
      · simp at found
  | cons c tail ih =>
      rw [after?] at found
      split at found
      · next starts =>
        obtain ⟨behind, eq⟩ := List.isPrefixOf_iff_prefix.mp starts
        refine ⟨[], ?_⟩
        rw [← eq] at found ⊢
        simpa using found
      · obtain ⟨front, eq⟩ := ih found
        exact ⟨c :: front, by simp [eq]⟩

theorem suffix_of_after? {word text rest : List Char}
    (found : after? word text = some rest) : rest <:+ text := by
  obtain ⟨front, rfl⟩ := after?_eq_some found
  exact ⟨front ++ word, rfl⟩

/-- Passing a word that is not empty shortens the text. -/
theorem length_lt_of_after? {word text rest : List Char} (nonempty : word ≠ [])
    (found : after? word text = some rest) : rest.length < text.length := by
  obtain ⟨front, rfl⟩ := after?_eq_some found
  have := List.length_pos_iff.mpr nonempty
  simp only [List.length_append]
  omega

/-! ## Entries of a row -/

/-- A row that lacks something consists of other things. -/
theorem forall_bne_of_not_mem {α : Type} [BEq α] [LawfulBEq α] {stop : α} {row : List α}
    (free : stop ∉ row) : ∀ item ∈ row, (item != stop) = true := by
  intro item member
  apply bne_iff_ne.mpr
  intro same
  exact free (same ▸ member)

/-- A row is cut at the last place of something that is in it. -/
theorem exists_last_of_mem {α : Type} {stop : α} {row : List α} (member : stop ∈ row) :
    ∃ front behind, row = front ++ stop :: behind ∧ stop ∉ behind := by
  have inReverse : stop ∈ row.reverse := List.mem_reverse.mpr member
  obtain ⟨behind, front, split, free⟩ := List.eq_append_cons_of_mem inReverse
  refine ⟨front.reverse, behind.reverse, ?_, by simpa using free⟩
  calc
    row = (behind ++ stop :: front).reverse := by rw [← split, List.reverse_reverse]
    _ = front.reverse ++ stop :: behind.reverse := by simp

end ScriptView.Text
