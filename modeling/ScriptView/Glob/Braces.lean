/-!
# Brace groups

A group lists alternatives between braces, with commas between them; groups
nest. Expansion replaces the leftmost group by each of its alternatives in turn
and goes on with the results, so that the leftmost group varies slowest. A
pattern whose first brace is never closed expands to itself.
-/

namespace ScriptView.Glob

/-- The body of a group and the text behind its closing brace, from inside the
group and `depth` groups nested in it. -/
def closeGroup? (depth : Nat) : List Char → Option (List Char × List Char)
  | [] => none
  | c :: rest =>
      if c = '{' then (closeGroup? (depth + 1) rest).map fun (body, behind) => (c :: body, behind)
      else if c = '}' then
        match depth with
        | 0 => some ([], rest)
        | depth + 1 => (closeGroup? depth rest).map fun (body, behind) => (c :: body, behind)
      else (closeGroup? depth rest).map fun (body, behind) => (c :: body, behind)

/-- A group in a pattern, with what stands around it. -/
structure Group where
  front : List Char
  body : List Char
  behind : List Char
  deriving DecidableEq, Repr

/-- The group that the first brace of a pattern opens. -/
def firstGroup? (pattern : List Char) : Option Group :=
  match pattern.dropWhile (· != '{') with
  | [] => none
  | _ :: inner =>
      (closeGroup? 0 inner).map fun (body, behind) =>
        ⟨pattern.takeWhile (· != '{'), body, behind⟩

/-- The alternatives of a group's body: what its outermost commas separate. -/
def alternatives (depth : Nat) : List Char → List (List Char)
  | [] => [[]]
  | c :: rest =>
      if c = ',' ∧ depth = 0 then [] :: alternatives depth rest
      else
        let inner := if c = '{' then depth + 1 else if c = '}' then depth - 1 else depth
        match alternatives inner rest with
        | [] => [[c]]
        | first :: others => (c :: first) :: others

theorem closeGroup?_eq_some {depth : Nat} {text body behind : List Char}
    (closed : closeGroup? depth text = some (body, behind)) :
    text = body ++ '}' :: behind := by
  induction text generalizing depth body behind with
  | nil => simp [closeGroup?] at closed
  | cons c rest ih =>
    rw [closeGroup?.eq_def] at closed
    simp only at closed
    split at closed
    · obtain ⟨⟨inner, last⟩, found, same⟩ := Option.map_eq_some_iff.mp closed
      cases same
      rw [ih found, List.cons_append]
    · split at closed
      · next brace =>
        split at closed
        · cases closed
          rw [brace, List.nil_append]
        · obtain ⟨⟨inner, last⟩, found, same⟩ := Option.map_eq_some_iff.mp closed
          cases same
          rw [ih found, List.cons_append]
      · obtain ⟨⟨inner, last⟩, found, same⟩ := Option.map_eq_some_iff.mp closed
        cases same
        rw [ih found, List.cons_append]

/-- A group and what stands around it make up the pattern. -/
theorem firstGroup?_eq_some {pattern : List Char} {group : Group}
    (found : firstGroup? pattern = some group) :
    pattern = group.front ++ '{' :: group.body ++ '}' :: group.behind := by
  rw [firstGroup?] at found
  split at found
  · simp at found
  · next brace inner eq =>
    obtain ⟨⟨body, behind⟩, closed, rfl⟩ := Option.map_eq_some_iff.mp found
    have isBrace : brace = '{' := by
      have := List.head?_dropWhile_not (p := (· != '{')) (l := pattern)
      rw [eq] at this
      simpa using this
    have parts := (List.takeWhile_append_dropWhile (p := (· != '{')) (l := pattern)).symm
    rw [eq, isBrace, closeGroup?_eq_some closed] at parts
    exact parts.trans (by simp)

/-- An alternative has no more braces than the body it comes from. -/
theorem count_le_of_mem_alternatives {depth : Nat} {body alternative : List Char}
    (member : alternative ∈ alternatives depth body) :
    alternative.count '{' ≤ body.count '{' := by
  induction body generalizing depth alternative with
  | nil =>
    rw [alternatives, List.mem_singleton] at member
    simp [member]
  | cons c rest ih =>
    have grow : ∀ other : List Char, other.count '{' ≤ rest.count '{' →
        other.count '{' ≤ (c :: rest).count '{' := fun other less => by
      rw [List.count_cons]; omega
    rw [alternatives] at member
    split at member
    · rcases List.mem_cons.mp member with rfl | inRest
      · simp
      · exact grow _ (ih inRest)
    · simp only at member
      split at member
      · rw [List.mem_singleton] at member
        subst member
        by_cases brace : c = '{' <;> simp [brace]
      · next first others eq =>
        rcases List.mem_cons.mp member with rfl | inRest
        · have : first.count '{' ≤ rest.count '{' := ih (eq ▸ List.mem_cons_self)
          rw [List.count_cons, List.count_cons]
          omega
        · exact grow _ (ih (eq ▸ List.mem_cons_of_mem _ inRest))

/-- The patterns without groups that a pattern stands for, in order. -/
def expand (pattern : List Char) : List (List Char) :=
  match found : firstGroup? pattern with
  | none => [pattern]
  | some group =>
      (alternatives 0 group.body).attach.flatMap fun ⟨alternative, member⟩ =>
        have : (group.front ++ alternative ++ group.behind).count '{' < pattern.count '{' := by
          have fewer := count_le_of_mem_alternatives member
          rw [firstGroup?_eq_some found]
          simp only [List.count_append, List.count_cons_self, List.count_cons]
          omega
        expand (group.front ++ alternative ++ group.behind)
termination_by pattern.count '{'
decreasing_by exact this

/-- A pattern without a closed first group stands for itself. -/
theorem expand_of_firstGroup?_eq_none {pattern : List Char}
    (none : firstGroup? pattern = none) : expand pattern = [pattern] := by
  rw [expand.eq_def]
  split
  · rfl
  · simp_all

/-- A pattern with a closed first group stands for what its alternatives do. -/
theorem expand_of_firstGroup?_eq_some {pattern : List Char} {group : Group}
    (found : firstGroup? pattern = some group) :
    expand pattern = (alternatives 0 group.body).flatMap fun alternative =>
      expand (group.front ++ alternative ++ group.behind) := by
  rw [expand.eq_def]
  split
  · simp_all
  · next other otherFound =>
    rw [found] at otherFound
    cases otherFound
    simp [List.flatMap_subtype]

end ScriptView.Glob
