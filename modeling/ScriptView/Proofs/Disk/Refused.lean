import ScriptView.Proofs.Disk.Make

/-!
# Refused changes

Writing and moving check what can be refused only when the directory that the target is in has
been made. A call that is refused therefore leaves the disk as it was exactly if that directory
was there, or could not be made either.
-/

namespace ScriptView.Disk

open ScriptView.Action

variable {top left : Node} {path source destination current text : String} {fault : Fault}
  {error : Error} {bytes : ByteArray} {above : List String}

/-! ## What refused calls leave -/

/-- A question comes before all changes. -/
theorem eq_of_ask_bind_eq_error {α β : Type} {question : Node → Except Fault α}
    {further : α → Call β} (fails : (ask question >>= further) top = .error fault left)
    (goesOn : ∀ value, further value top = .error fault left → left = top) : left = top := by
  rcases fails_or_of_bind_eq_error fails with asked | ⟨value, between, asked, failsThen⟩
  · exact (ask_eq_error_iff.mp asked).2
  · cases (ask_eq_ok_iff.mp asked).2
    exact goesOn value failsThen

/-- A check that fails leaves all as it is. -/
theorem eq_of_guard_eq_error {α β : Type} {refuses : Prop} [Decidable refuses] {thrown : Fault}
    {further : α → Call β} {rest : Call β}
    (fails : (if refuses then (throw thrown : Call α) >>= further else rest) top =
      .error fault left)
    (goesOn : rest top = .error fault left → left = top) : left = top := by
  split at fails
  · cases fails
    rfl
  · exact goesOn fails

theorem eq_of_writeBytes_eq_error (fails : writeBytes path bytes top = .error fault left) :
    left = top := by
  rw [writeBytes] at fails
  apply eq_of_ask_bind_eq_error fails
  intro address modifies
  cases modifies

theorem eq_of_rename_eq_error (fails : rename source destination top = .error fault left) :
    left = top := by
  -- All parts but the last one only look at the disk, and the last one does not fail.
  rw [rename] at fails
  apply eq_of_guard_eq_error fails
  clear fails
  intro fails
  apply eq_of_ask_bind_eq_error fails
  clear fails
  intro _ fails
  apply eq_of_ask_bind_eq_error fails
  clear fails
  intro origin fails
  apply eq_of_ask_bind_eq_error fails
  clear fails
  intro place fails
  obtain ⟨fromDirectory, fromEnding⟩ := origin
  obtain ⟨toDirectory, toEnding⟩ := place
  cases fromEnding with
  | dot | dots | none =>
      cases fails
      rfl
  | name fromName =>
      cases toEnding with
      | dot | dots | none =>
          cases fails
          rfl
      | name toName =>
          apply eq_of_guard_eq_error fails
          clear fails
          intro fails
          dsimp only at fails
          rw [get_bind] at fails
          cases found : top.get? (fromDirectory ++ [fromName]) with
          | none =>
              rw [found] at fails
              cases fails
              rfl
          | some node =>
              rw [found] at fails
              apply eq_of_guard_eq_error fails
              clear fails
              intro fails
              apply eq_of_guard_eq_error fails
              clear fails
              intro fails
              apply eq_of_guard_eq_error fails
              clear fails
              intro fails
              apply eq_of_guard_eq_error fails
              clear fails
              intro fails
              split at fails
              · cases replaced : (top.get? (toDirectory ++ [toName])).bind (replaceFault? node) with
                | some found =>
                    rw [replaced] at fails
                    cases fails
                    rfl
                | none =>
                    rw [replaced] at fails
                    cases fails
              · cases fails

/-! ## The directory that the end of a path is in -/

/-- The condition under which making the directory that the end of a path is in changes the
disk: the path of that directory can be followed, and it or one above it is missing in an
existing directory. -/
def MakesParent (top : Node) (path : String) : Prop :=
  (∃ nearest, parent? path = some nearest ∧ checked nearest = .ok nearest) ∧
    ∃ above ∈ parents path, IsFree top above

theorem eq_iff_of_leaves_makeParent (isTop : contentAt? top [] = some .directory)
    (leaves : Leaves (makeParent path) top left) : left = top ↔ ¬MakesParent top path := by
  cases isParent : parent? path with
  | none =>
      rw [makeParent, isParent] at leaves
      have same : left = top := eq_of_leaves_of_ok leaves rfl
      simp [same, MakesParent, isParent]
  | some nearest =>
      obtain ⟨-, -, above, -, -, isPath, isRow, isFurther⟩ := exists_of_parent? isParent
      rw [makeParent, isParent] at leaves
      have makes : Leaves (makeFirst (parents path)) top left := by
        rw [isRow, ← isFurther]
        exact leaves_run leaves
      constructor
      · intro same makesParent
        obtain ⟨⟨_, sameParent, isChecked⟩, free⟩ := makesParent
        cases isParent.symm.trans sameParent
        have areChecked : ∀ other ∈ parents path, checked other = .ok other := by
          intro other member
          rw [isRow] at member
          cases List.mem_cons.mp member with
          | inl here => exact here ▸ isChecked
          | inr further =>
              obtain ⟨below, segment, rest, rfl, -, rfl⟩ := mem_parentsOf_iff.mp further
              obtain ⟨tail, isWhole⟩ := exists_pathUpTo_append (below ++ [segment]) rest
              rw [List.append_assoc, List.singleton_append, isPath] at isWhole
              rw [isWhole] at isChecked
              exact checked_of_append isChecked
        obtain ⟨address, missing, isThere⟩ :=
          exists_new_of_free isTop (fun _ => isSegment_of_mem_tail) areChecked makes free
        rw [same] at isThere
        contradiction
      · intro notMakes
        rcases eq_or_exists_free makes with same | free
        · exact same
        · by_cases isChecked : checked nearest = .ok nearest
          · exact absurd ⟨⟨nearest, isParent, isChecked⟩, free⟩ notMakes
          · rw [isRow] at makes
            obtain ⟨fault, fails⟩ := makeFirst_of_unchecked isChecked (parentsOf above) top
            exact eq_of_leaves_of_error makes fails

/-! ## Refused changes -/

/-- A write or a move that is refused leaves the disk as it was exactly if making the directory
of the target changes nothing. -/
theorem eq_iff_of_refused (isDirectory : top.isDirectory = true) :
    (∀ text, (host current).write path text top = .error error left →
      (left = top ↔ ¬MakesParent top (join current path))) ∧
    (∀ source, (host current).move source path top = .error error left →
      (left = top ↔ ¬MakesParent top (join current path))) := by
  have isTop := isTop_of_isDirectory isDirectory
  constructor
  · intro text refused
    rcases fails_or_of_bind_eq_error refused with fails | ⟨_, made, makes, fails⟩
    · exact eq_iff_of_leaves_makeParent isTop (leaves_of_error fails)
    · have same : left = made := by
        obtain ⟨fault, failsAt⟩ := exists_of_run_eq_error fails
        exact eq_of_writeBytes_eq_error failsAt
      rw [same]
      exact eq_iff_of_leaves_makeParent isTop (leaves_of_ok makes)
  · intro source refused
    rcases fails_or_of_bind_eq_error refused with fails | ⟨_, made, makes, fails⟩
    · exact eq_iff_of_leaves_makeParent isTop (leaves_of_error fails)
    · have same : left = made := by
        obtain ⟨fault, failsAt⟩ := exists_of_run_eq_error fails
        exact eq_of_rename_eq_error failsAt
      rw [same]
      exact eq_iff_of_leaves_makeParent isTop (leaves_of_ok makes)

/-- The directory of the target is there: nothing changes. -/
theorem eq_iff_of_refused_beside :
    (host "/").write "d" "text" (.directory [("d", .directory [])]) =
        .error (.io .isDirectory) (.directory [("d", .directory [])]) ∧
      ¬MakesParent (.directory [("d", .directory [])]) (join "/" "d") ∧
      (host "/").move "missing" "d/file" (.directory [("d", .directory [])]) =
        .error (.fileNotFound "/missing") (.directory [("d", .directory [])]) ∧
      ¬MakesParent (.directory [("d", .directory [])]) (join "/" "d/file") :=
  ⟨rfl, ((eq_iff_of_refused rfl).1 "text" rfl).mp rfl,
    rfl, ((eq_iff_of_refused rfl).2 "missing" rfl).mp rfl⟩

/-- The directory of the target is made, and what was to be written or moved is refused then. -/
theorem parent_left_by_refused :
    (host "/").move "missing" "new/file" (.directory []) =
        .error (.fileNotFound "/missing") (.directory [("new", .directory [])]) ∧
      (host "/").write "new/file/" "text" (.directory []) =
        .error (.io .isDirectory) (.directory [("new", .directory [])]) ∧
      contentAt? (.directory []) ["new"] = none ∧
      contentAt? (.directory [("new", .directory [])]) ["new"] = some .directory :=
  ⟨rfl, rfl, rfl, rfl⟩

end ScriptView.Disk
