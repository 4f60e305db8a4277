import ScriptView.Proofs.Disk.Make
import ScriptView.Proofs.Disk.Sound

/-!
# Copying

A copied file is written to one place, and nothing else changes. A directory is copied entry by
entry once its target is there.
-/

namespace ScriptView.Disk

open ScriptView.Action

variable {top left : Node} {source destination path name : String} {address place : Address}
  {goal : Spot} {fault : Fault} {entries : List (String × Node)}

/-! ## Files -/

/-- A file is written where a path to be written leads, if no directory is there. -/
theorem writable_eq_ok_iff :
    writable top path = .ok place ↔
      ∃ goal, spot top .write path = .ok goal ∧ goal.address = place ∧
        ∀ address, goal = .taken address → contentAt? top address ≠ some .directory := by
  rw [writable, bind_eq_ok_iff]
  constructor
  · intro runs
    obtain ⟨goal, isSpot, isPlace⟩ := runs
    cases goal with
    | vacant directory name =>
        refine ⟨.vacant directory name, isSpot, Except.ok.inj isPlace, ?_⟩
        intro address taken
        cases taken
    | taken other =>
        refine ⟨.taken other, isSpot, ?_⟩
        dsimp only at isPlace
        split at isPlace
        · cases isPlace
        · next notDirectory =>
          refine ⟨Except.ok.inj isPlace, ?_⟩
          intro address taken isDirectory
          cases taken
          obtain ⟨entries, found⟩ := contentAt?_eq_directory_iff.mp isDirectory
          exact notDirectory entries found
  · intro leads
    obtain ⟨goal, isSpot, isPlace, notDirectory⟩ := leads
    refine ⟨goal, isSpot, ?_⟩
    cases goal with
    | vacant directory name => exact congrArg _ isPlace
    | taken address =>
        dsimp only
        split
        · next entries found =>
          exact absurd (contentAt?_eq_directory_iff.mpr ⟨entries, found⟩) (notDirectory address rfl)
        · exact congrArg _ isPlace

/-- What is known of the end of a path: there is something, or a name in a directory is free. -/
def Spot.Fits (top : Node) : Spot → Prop
  | .taken address => contentAt? top address ≠ none
  | .vacant directory name =>
      contentAt? top directory = some .directory ∧ contentAt? top (directory ++ [name]) = none ∧
        LeadsDown name

theorem fits_of_follow {purpose : Purpose} {links : Nat} {here : Address} {path : List String}
    (isTop : contentAt? top [] = some .directory)
    (isHere : contentAt? top here = some .directory)
    (ends : follow top purpose links here path = .ok goal) : goal.Fits top := by
  have follows := follows_of_follow ends
  clear ends
  induction follows with
  | here => simp [Spot.Fits, isHere]
  | void _ _ ih => exact ih isHere
  | up _ ih => exact ih (isDirectory_of_isPrefix (List.dropLast_prefix _) isHere)
  | missing leads nothing _ => exact ⟨isHere, nothing, leads⟩
  | file _ found => simp [Spot.Fits, found]
  | down _ found _ ih => exact ih found
  | itself _ found _ => simp [Spot.Fits, found]
  | link _ _ _ ih =>
      -- A link leads on from the top or from where it is.
      apply ih
      split
      · exact isTop
      · exact isHere

theorem fits_of_spot {purpose : Purpose} (isTop : contentAt? top [] = some .directory)
    (isSpot : spot top purpose path = .ok goal) : goal.Fits top :=
  fits_of_follow isTop isTop (spot_eq_ok_iff.mp isSpot).2.2

/-- A place where a file can be written is in a directory, and is not one. -/
theorem exists_of_writable (isTop : contentAt? top [] = some .directory)
    (isPlace : writable top path = .ok place) :
    ∃ directory name, directory ++ [name] = place ∧ contentAt? top directory = some .directory ∧
      contentAt? top place ≠ some .directory := by
  obtain ⟨goal, isSpot, rfl, notDirectory⟩ := writable_eq_ok_iff.mp isPlace
  have fits := fits_of_spot isTop isSpot
  cases goal with
  | vacant directory name => exact ⟨directory, name, rfl, fits.1, by simp [Spot.address, fits.2.1]⟩
  | taken address =>
      have notDirectory := notDirectory address rfl
      have nonempty : address ≠ [] := by
        rintro rfl
        exact notDirectory isTop
      have split := List.dropLast_append_getLast nonempty
      have differs : address.dropLast ≠ address := by
        intro same
        rw [same] at split
        simp at split
      exact ⟨_, _, split,
        isDirectory_above (List.dropLast_prefix _) differs fits, notDirectory⟩

/-- A file is written in one place. -/
theorem contentAt?_put_file (isTop : contentAt? top [] = some .directory)
    (isPlace : writable top path = .ok place) (bytes : ByteArray) (other : Address) :
    contentAt? (Node.put place (.file bytes) top) other =
      if other = place then some (.file bytes) else contentAt? top other := by
  obtain ⟨directory, name, rfl, isDirectory, free⟩ := exists_of_writable isTop isPlace
  exact contentAt?_put isDirectory free (fun _ => rfl) other

/-- What is left by the bytes of a file that are still there when the target is emptied. -/
def transfer (address place : Address) (top : Node) : Node :=
  match (Node.put place (.file .empty) top).get? address with
  | some (.file bytes) => Node.put place (.file bytes) (Node.put place (.file .empty) top)
  | _ => Node.put place (.file .empty) top

theorem copyFile_eq :
    copyFile source destination top =
      match nodeAt top source with
      | .error fault => .error fault top
      | .ok (address, .file _) =>
          match writable top destination with
          | .error fault => .error fault top
          | .ok place => .ok () (transfer address place top)
      | .ok _ => .error .notRegularFile top := by
  rw [copyFile]
  cases leads : nodeAt top source with
  | error fault =>
      have asked : ask (nodeAt · source) top = .error fault top := ask_eq_error_iff.mpr ⟨leads, rfl⟩
      exact bind_of_error asked
  | ok found =>
      have asked : ask (nodeAt · source) top = .ok found top := ask_eq_ok_iff.mpr ⟨leads, rfl⟩
      rw [bind_of_ok asked]
      obtain ⟨address, node⟩ := found
      cases node with
      | link | directory => rfl
      | file origin =>
          cases isPlace : writable top destination with
          | error fault =>
              have asked : ask (writable · destination) top = .error fault top :=
                ask_eq_error_iff.mpr ⟨isPlace, rfl⟩
              exact bind_of_error asked
          | ok place =>
              have asked : ask (writable · destination) top = .ok place top :=
                ask_eq_ok_iff.mpr ⟨isPlace, rfl⟩
              have emptied : (modify (Node.put place (.file .empty)) : Call Unit) top =
                .ok () (Node.put place (.file .empty) top) := rfl
              refine (bind_of_ok asked).trans ((bind_of_ok emptied).trans ?_)
              rw [get_bind]
              dsimp only [transfer]
              cases found : (Node.put place (.file .empty) top).get? address with
              | none => rfl
              | some node => cases node <;> rfl

/-- A call that copies a file fails and changes nothing, or transfers bytes from where one path
leads to where another one does. -/
theorem copyFile_cases (leaves : Leaves (copyFile source destination) top left) :
    (left = top ∧ ∃ fault, copyFile source destination top = .error fault top) ∨
      ∃ address origin place, nodeAt top source = .ok (address, .file origin) ∧
        writable top destination = .ok place ∧ left = transfer address place top := by
  have isCopy : copyFile source destination top = _ := copyFile_eq
  split at isCopy
  · next fault _ => exact .inl ⟨eq_of_leaves_of_error leaves isCopy, fault, isCopy⟩
  · next address origin leads =>
    split at isCopy
    · next fault _ => exact .inl ⟨eq_of_leaves_of_error leaves isCopy, fault, isCopy⟩
    · next place isPlace =>
      exact .inr ⟨address, origin, place, leads, isPlace, eq_of_leaves_of_ok leaves isCopy⟩
  · exact .inl ⟨eq_of_leaves_of_error leaves isCopy, .notRegularFile, isCopy⟩

/-- A transfer writes one file, which is empty afterwards if it is the one that is read. -/
theorem exists_contentAt?_transfer (isTop : contentAt? top [] = some .directory)
    (isPlace : writable top destination = .ok place) (address : Address) :
    ∃ bytes, (place = address → bytes = .empty) ∧ ∀ other,
      contentAt? (transfer address place top) other =
        if other = place then some (.file bytes) else contentAt? top other := by
  have emptied := contentAt?_put_file isTop isPlace .empty
  rw [transfer]
  split
  · next bytes found =>
    obtain ⟨directory, name, rfl, isDirectory, -⟩ := exists_of_writable isTop isPlace
    have stays : contentAt? (Node.put (directory ++ [name]) (.file .empty) top) directory =
        some .directory := by
      rw [emptied, if_neg (by simp), isDirectory]
    have isFile : contentAt? (Node.put (directory ++ [name]) (.file .empty) top)
        (directory ++ [name]) = some (.file .empty) := by
      rw [emptied, if_pos rfl]
    refine ⟨bytes, ?_, ?_⟩
    · intro same
      rw [← same, ← contentAt?_eq_file_iff, isFile] at found
      cases found
      rfl
    · intro other
      rw [contentAt?_put stays (by simp [isFile]) (fun _ => rfl), emptied]
      split
      · rfl
      · rfl
  · exact ⟨.empty, fun _ => rfl, emptied⟩

theorem isSound_transfer (sound : top.IsSound) (names : ∀ name ∈ place, IsFileName name)
    (address : Address) : (transfer address place top).IsSound := by
  have soundEmptied := sound.put names (.file .empty)
  rw [transfer]
  split
  · exact soundEmptied.put names (.file _)
  · exact soundEmptied

/-! ## Directories -/

/-- Copy an entry of a directory to another one. -/
def copyEntry (source destination : String) (entry : String × Node) : Call Unit :=
  if entry.2.isDirectory then
    if source.utf8ByteSize < (join source entry.1).utf8ByteSize ∧
        (join source entry.1).utf8ByteSize < pathLimit then
      copyTree (join source entry.1) (join destination entry.1)
    else do
      makeDirectories (join destination entry.1)
      throw .nameTooLong
  else copyFile (join source entry.1) (join destination entry.1)

/-- A directory is copied entry by entry once its target is there. -/
theorem copyTree_eq (source destination : String) :
    copyTree source destination =
      (makeDirectories destination >>= fun _ => ask (readDirectory · source) >>= fun entries =>
        entries.forM (copyEntry source destination)) := by
  rw [copyTree]
  refine bind_congr fun _ => bind_congr fun entries => congrArg entries.forM ?_
  funext entry
  simp only [copyEntry, dite_eq_ite]

theorem copyTree_of_made {made : Node} (makes : makeDirectories destination top = .ok () made) :
    copyTree source destination top =
      match readDirectory made source with
      | .error fault => .error fault made
      | .ok entries => entries.forM (copyEntry source destination) made := by
  rw [copyTree_eq, bind_of_ok makes]
  cases read : readDirectory made source with
  | error fault =>
      have asked : ask (readDirectory · source) made = .error fault made :=
        ask_eq_error_iff.mpr ⟨read, rfl⟩
      exact bind_of_error asked
  | ok entries =>
      have asked : ask (readDirectory · source) made = .ok entries made :=
        ask_eq_ok_iff.mpr ⟨read, rfl⟩
      exact bind_of_ok asked

/-- A copy of a directory runs the call for it. -/
theorem copy_of_leads (leads : nodeAt top source = .ok (address, .directory entries))
    (destination : String) :
    copy source destination top =
      run (.ofFileFault source) (copyTree source destination) top := by
  have asked : run (.ofFileFault source) (ask (nodeAt · source)) top =
      .ok (address, .directory entries) top := by
    rw [run, ask_eq_ok_iff.mpr ⟨leads, rfl⟩]
  rw [copy, bind_of_ok asked]
  rfl

/-! ## What copies keep -/

/-- A property of states that a copy keeps, and the calls that it makes: each call is made for
the paths of an entry that an earlier call has read. -/
structure KeptByCopies (property : Node → Prop) (calls : String → String → Prop) : Prop where
  makes : ∀ {source destination}, calls source destination →
    ∀ path ∈ destination :: parents destination, ∀ before after, property before →
      makeDirectory path before = .ok () after → property after
  transfers : ∀ {source destination}, calls source destination →
    ∀ before address origin place, property before →
      nodeAt before source = .ok (address, .file origin) →
      writable before destination = .ok place → property (transfer address place before)
  deeper : ∀ {source destination}, calls source destination →
    ∀ made entries, property made → readDirectory made source = .ok entries →
      ∀ entry ∈ entries, calls (join source entry.1) (join destination entry.1)

namespace KeptByCopies

variable {property : Node → Prop} {calls : String → String → Prop}

theorem holds_of_makeDirectories (kept : KeptByCopies property calls)
    (isCall : calls source destination) (holds : property top)
    (leaves : Leaves (makeDirectories destination) top left) : property left :=
  holds_of_leaves_makeFirst property leaves (kept.makes isCall) holds

theorem holds_of_copyFile (kept : KeptByCopies property calls) (isCall : calls source destination)
    (holds : property top) (leaves : Leaves (copyFile source destination) top left) :
    property left := by
  rcases copyFile_cases leaves with ⟨same, -⟩ | ⟨address, origin, place, leads, isPlace, rfl⟩
  · exact same ▸ holds
  · exact kept.transfers isCall top address origin place holds leads isPlace

/-- What the calls for an entry and for all below it keep. -/
theorem holds_of_below (kept : KeptByCopies property calls) {entry : String × Node}
    (isCall : calls (join source entry.1) (join destination entry.1)) (holds : property top)
    (leaves : Leaves (copyEntry source destination entry) top left)
    (below : source.utf8ByteSize < (join source entry.1).utf8ByteSize →
      (join source entry.1).utf8ByteSize < pathLimit →
      Leaves (copyTree (join source entry.1) (join destination entry.1)) top left →
      property left) : property left := by
  rw [copyEntry] at leaves
  split at leaves
  · split at leaves
    · next shorter => exact below shorter.1 shorter.2 leaves
    · rcases leaves_of_bind leaves with ⟨fault, fails⟩ | ⟨_, made, makes, throws⟩
      · exact kept.holds_of_makeDirectories isCall holds (leaves_of_error fails)
      · rw [eq_of_leaves_of_error throws rfl]
        exact kept.holds_of_makeDirectories isCall holds (leaves_of_ok makes)
  · exact kept.holds_of_copyFile isCall holds leaves

theorem holds_of_copyTree {property : Node → Prop} {calls : String → String → Prop}
    {top left : Node} {source destination : String} (kept : KeptByCopies property calls)
    (isCall : calls source destination) (holds : property top)
    (leaves : Leaves (copyTree source destination) top left) : property left := by
  rw [copyTree_eq] at leaves
  rcases leaves_of_bind leaves with ⟨fault, fails⟩ | ⟨_, made, makes, leavesMade⟩
  · exact kept.holds_of_makeDirectories isCall holds (leaves_of_error fails)
  · have holdsMade := kept.holds_of_makeDirectories isCall holds (leaves_of_ok makes)
    rcases leaves_of_bind leavesMade with ⟨fault, fails⟩ | ⟨entries, between, asked, leavesRow⟩
    · rw [(ask_eq_error_iff.mp fails).2]
      exact holdsMade
    · obtain ⟨read, rfl⟩ := ask_eq_ok_iff.mp asked
      refine holds_of_leaves_forM leavesRow ?_ holdsMade
      intro entry member before after holdsBefore leavesEntry
      have isCallEntry := kept.deeper isCall between entries holdsMade read entry member
      apply kept.holds_of_below isCallEntry holdsBefore leavesEntry
      intro longer short leavesBelow
      exact kept.holds_of_copyTree isCallEntry holdsBefore leavesBelow
termination_by pathLimit - source.utf8ByteSize

theorem holds_of_copyEntry (kept : KeptByCopies property calls) {entry : String × Node}
    (isCall : calls (join source entry.1) (join destination entry.1)) (holds : property top)
    (leaves : Leaves (copyEntry source destination entry) top left) : property left :=
  kept.holds_of_below isCall holds leaves fun _ _ => kept.holds_of_copyTree isCall holds

end KeptByCopies

/-- What is there when a copy begins is there when it ends, and the top is a directory. -/
theorem grows_of_copyTree (isTop : contentAt? top [] = some .directory)
    (leaves : Leaves (copyTree source destination) top left) :
    contentAt? left [] = some .directory ∧ Grows top left := by
  have kept : KeptByCopies (fun node => contentAt? node [] = some .directory ∧ Grows top node)
      fun _ _ => True := by
    refine ⟨?_, ?_, fun _ _ _ _ _ _ _ => trivial⟩
    · intro _ _ _ path _ before after holds makes
      obtain ⟨isTopAfter, grows⟩ := grows_of_makeDirectory holds.1 makes
      exact ⟨isTopAfter, fun address isThere => grows address (holds.2 address isThere)⟩
    · intro _ _ _ before address origin place holds _ isPlace
      obtain ⟨directory, name, isConcat, -, -⟩ := exists_of_writable holds.1 isPlace
      obtain ⟨bytes, -, contents⟩ := exists_contentAt?_transfer holds.1 isPlace address
      constructor
      · rw [contents, if_neg (by simp [← isConcat]), holds.1]
      · intro other isThere
        rw [contents]
        split
        · simp
        · exact holds.2 other isThere
  exact kept.holds_of_copyTree trivial ⟨isTop, fun _ isThere => isThere⟩ leaves

end ScriptView.Disk
