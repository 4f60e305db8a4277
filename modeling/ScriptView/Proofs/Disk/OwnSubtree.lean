import ScriptView.Proofs.Disk.Linkless

/-!
# Copies into their own subtree

Each directory that is made in the source of a copy is one more to be copied, and deeper. Such a
copy goes on until a path or a name is too long, and never ends well.
-/

namespace ScriptView.Disk

open ScriptView.Action

variable {top made left : Node} {source destination current path : String} {here rest : Address}
  {entries : List (String × Node)}

theorem keptByCopies_isLinklessDisk : KeptByCopies IsLinklessDisk fun _ _ => True where
  makes := fun _ _ _ _ _ disk makes => (disk.makeDirectory makes).1
  transfers := fun _ _ address _ _ disk _ isPlace => (disk.transfer isPlace address).1
  deeper := fun _ _ _ _ _ _ _ => trivial

/-- A directory that is made, if it is not there, is there then. -/
theorem isDirectory_of_makeDirectories (disk : IsLinklessDisk top)
    (makes : makeDirectories path top = .ok () made) :
    IsLinklessDisk made ∧ contentAt? made (place path) = some .directory := by
  have keeps : ∀ row between, Leaves (makeFirst row) top between → IsLinklessDisk between := by
    intro row between leaves
    exact holds_of_leaves_makeFirst IsLinklessDisk leaves
      (fun _ _ _ _ before makes => (before.makeDirectory makes).1) disk
  have diskMade := keeps _ made (leaves_of_ok makes)
  refine ⟨diskMade, ?_⟩
  rcases makes_or_leads_of_makeFirst makes with ⟨between, isBetween, makesLast⟩ | leads
  · have diskBetween : IsLinklessDisk between := by
      cases isBetween with
      | inl same => exact same ▸ disk
      | inr leaves => exact keeps _ between leaves
    rw [(diskBetween.makeDirectory makesLast).2.2, if_pos rfl]
  · rw [leadsToDirectory] at leads
    split at leads
    · next address node leadsTo =>
      rw [place_of_nodeAt diskMade.linkless leadsTo, contentAt?,
        (nodeAt_eq_ok_iff_spot.mp leadsTo).2]
      cases node with
      | file | link => cases leads
      | directory children => rfl
    · cases leads

/-- An entry of a directory that is copied well is copied well behind those before it. -/
theorem exists_copyEntry_of_copyTree {name : String} (disk : IsLinklessDisk top)
    (ends : copyTree source destination top = .ok () left)
    (isThere : ∀ made, makeDirectories destination top = .ok () made →
      contentAt? made (place source ++ [name]) = some .directory) :
    IsFileName name ∧ ∃ between after children, IsLinklessDisk between ∧
      copyEntry source destination (name, .directory children) between = .ok () after := by
  rw [copyTree_eq] at ends
  obtain ⟨⟨⟩, made, makes, endsMade⟩ := exists_of_bind_eq_ok ends
  obtain ⟨entries, same, asked, endsRow⟩ := exists_of_bind_eq_ok endsMade
  obtain ⟨read, rfl⟩ := ask_eq_ok_iff.mp asked
  have diskMade := (isDirectory_of_makeDirectories disk makes).1
  obtain ⟨address, leads⟩ := readDirectory_eq_ok_iff_nodeAt.mp read
  obtain ⟨children, found⟩ := contentAt?_eq_directory_iff.mp (isThere _ makes)
  rw [place_of_nodeAt diskMade.linkless leads] at found
  have member := (diskMade.sound.mem_entries_iff (nodeAt_eq_ok_iff_spot.mp leads).2).mpr found
  obtain ⟨earlier, later, between, after, -, row, isCopied⟩ :=
    exists_of_forM_eq_ok endsRow member
  refine ⟨isFileName_of_read diskMade.sound read member, between, after, children, ?_, isCopied⟩
  refine holds_of_leaves_forM (leaves_of_ok row) ?_ diskMade
  intro _ _ _ _ diskBefore leaves
  exact keptByCopies_isLinklessDisk.holds_of_copyEntry trivial diskBefore leaves

/-- What is copied into itself does not end well. -/
theorem copyTree_ne_ok {top : Node} {source destination : String} {rest : Address}
    (disk : IsLinklessDisk top) (inside : place destination = place source ++ rest)
    (below : rest ≠ []) (left : Node) : copyTree source destination top ≠ .ok () left := by
  intro ends
  obtain ⟨name, further, rfl⟩ := List.exists_cons_of_ne_nil below
  have isThere : ∀ made, makeDirectories destination top = .ok () made →
      contentAt? made (place source ++ [name]) = some .directory := by
    intro made makes
    apply isDirectory_of_isPrefix _ (isDirectory_of_makeDirectories disk makes).2
    rw [inside]
    exact ⟨further, by simp⟩
  obtain ⟨isName, between, after, children, diskBetween, isCopied⟩ :=
    exists_copyEntry_of_copyTree disk ends isThere
  rw [copyEntry, if_pos (by rfl)] at isCopied
  split at isCopied
  · next shorter =>
    have longer : source.utf8ByteSize < (join source name).utf8ByteSize := shorter.1
    have short : (join source name).utf8ByteSize < pathLimit := shorter.2
    -- The entry on the way to the target is copied to one more directory below itself.
    have insideToo : place (join destination name) =
        place (join source name) ++ (further ++ [name]) := by
      rw [place_join isName, place_join isName, inside]
      simp
    exact copyTree_ne_ok diskBetween insideToo (by simp) after isCopied
  · obtain ⟨_, _, -, throws⟩ := exists_of_bind_eq_ok isCopied
    cases throws
termination_by pathLimit - source.utf8ByteSize

/-- On a disk without links, a copy of a directory into its own subtree fails. -/
theorem copy_fails_of_below (sound : top.IsSound) (linkless : IsLinkless top)
    (isDirectory : top.isDirectory = true)
    (leads : nodeAt top (join current source) = .ok (here, .directory entries))
    (inside : place (join current destination) = here ++ rest) (below : rest ≠ []) :
    ∃ error left, (host current).copy source destination top = .error error left := by
  have isRun : (host current).copy source destination top = _ := copy_of_leads leads _
  have disk : IsLinklessDisk top := ⟨sound, linkless, isTop_of_isDirectory isDirectory⟩
  rw [← place_of_nodeAt linkless leads] at inside
  cases ends : (host current).copy source destination top with
  | ok value left =>
      rw [isRun] at ends
      exact absurd (eq_ok_of_run ends) (copyTree_ne_ok disk inside below left)
  | error error left => exact ⟨error, left, rfl⟩

end ScriptView.Disk
