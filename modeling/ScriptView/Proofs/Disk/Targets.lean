import ScriptView.Proofs.Disk.Linkless

/-!
# Where a copy makes something

The calls of a copy belong to the entries that the source had, and make nothing but their images
and the directories above the target, as long as none of these is a new place in the source
itself.
-/

namespace ScriptView.Disk

open ScriptView.Action

variable {top state made between left : Node} {source destination current path target name : String}
  {here address : Address} {entries : List (String × Node)} {node : Node}

/-! ## Stages of a copy -/

/-- A place where a copy may make something: that of a directory above its target, or the image
of what the source has. -/
def IsTarget (top : Node) (here : Address) (destination : String) (address : Address) : Prop :=
  (∃ path ∈ parents destination, place path = address) ∨
    ∃ below, contentAt? top (here ++ below) ≠ none ∧ place destination ++ below = address

/-- The condition under which a copy does not come to what it has made itself: a target that lies
in the source is there already. -/
def IsSettled (top : Node) (here : Address) (destination : String) : Prop :=
  ∀ address, IsTarget top here destination address → here <+: address →
    contentAt? top address ≠ none

/-- A state that a copy may come to. -/
structure IsStage (top : Node) (here : Address) (destination : String) (state : Node) : Prop
    extends IsLinklessDisk state where
  isNew : ∀ address, contentAt? state address ≠ none →
    contentAt? top address ≠ none ∨ IsTarget top here destination address
  keeps : ∀ address content, contentAt? top address = some content →
    (contentAt? state address).map Content.shape = some content.shape

/-- A call that a copy may make: for an entry that the source has, and its image. -/
structure IsCall (top : Node) (here : Address) (destination : String) (below : Address)
    (path target : String) : Prop where
  isThere : contentAt? top (here ++ below) ≠ none
  isSource : place path = here ++ below
  isImage : place target = place destination ++ below
  absolute : isAbsolute target = true
  parentsAreTargets : ∀ path ∈ parents target, IsTarget top here destination (place path)

theorem IsCall.isTarget {below : Address} (isCall : IsCall top here destination below path target) :
    IsTarget top here destination (place target) :=
  .inr ⟨below, isCall.isThere, isCall.isImage.symm⟩

/-- A change at a target leads from stage to stage, if it puts nothing else where something is. -/
theorem IsStage.change {content : Content} (stage : IsStage top here destination state)
    (disk : IsLinklessDisk left) (isTarget : IsTarget top here destination address)
    (fits : ∀ old, contentAt? state address = some old → old.shape = content.shape)
    (contents : ∀ other, contentAt? left other =
      if other = address then some content else contentAt? state other) :
    IsStage top here destination left where
  toIsLinklessDisk := disk
  isNew := by
    intro other isThere
    rw [contents] at isThere
    split at isThere
    · next same => exact .inr (same ▸ isTarget)
    · exact stage.isNew other isThere
  keeps := by
    intro other before isThere
    have kept := stage.keeps other before isThere
    rw [contents]
    split
    · next same =>
      cases same
      obtain ⟨old, isOld, sameShape⟩ := Option.map_eq_some_iff.mp kept
      rw [Option.map_some, ← fits old isOld, sameShape]
    · exact kept

/-- Making a directory leads from stage to stage. -/
theorem IsStage.makeDirectory (stage : IsStage top here destination state)
    (isTarget : IsTarget top here destination (place path))
    (makes : makeDirectory path state = .ok () made) : IsStage top here destination made := by
  obtain ⟨disk, missing, contents⟩ := stage.toIsLinklessDisk.makeDirectory makes
  apply stage.change disk isTarget _ contents
  intro old isOld
  rw [missing] at isOld
  cases isOld

/-- Copying a file leads from stage to stage. -/
theorem IsStage.transfer {there : Address} (stage : IsStage top here destination state)
    (isTarget : IsTarget top here destination (place target))
    (isPlace : writable state target = .ok there) (address : Address) :
    IsStage top here destination (transfer address there state) := by
  obtain ⟨disk, free, bytes, contents⟩ := stage.toIsLinklessDisk.transfer isPlace address
  apply stage.change disk isTarget _ contents
  intro old isOld
  cases old with
  | file => rfl
  | link other => exact absurd isOld (stage.linkless _ other)
  | directory => exact absurd isOld free

/-- An entry that the source has now is one that it had before. -/
theorem IsStage.isThere (stage : IsStage top here destination state)
    (settled : IsSettled top here destination) (within : here <+: address)
    (isThere : contentAt? state address ≠ none) : contentAt? top address ≠ none := by
  rcases stage.isNew address isThere with before | isTarget
  · exact before
  · exact settled address isTarget within

/-- The calls for the entries of a directory are those of entries that the source had. -/
theorem IsCall.deeper {below : Address} (settled : IsSettled top here destination)
    (isCall : IsCall top here destination below path target)
    (stage : IsStage top here destination state)
    (read : readDirectory state path = .ok entries) {entry : String × Node}
    (member : entry ∈ entries) :
    IsCall top here destination (below ++ [entry.1]) (join path entry.1) (join target entry.1) := by
  obtain ⟨address, leads⟩ := readDirectory_eq_ok_iff_nodeAt.mp read
  have isName := isFileName_of_read stage.sound read member
  have isAddress := place_of_nodeAt stage.linkless leads
  have found := (nodeAt_eq_ok_iff_spot.mp leads).2
  have isEntry := (stage.sound.mem_entries_iff found).mp member
  rw [← isAddress, isCall.isSource, List.append_assoc] at isEntry
  refine ⟨?_, ?_, ?_, isAbsolute_join isCall.absolute _, ?_⟩
  · apply stage.isThere settled (List.prefix_append _ _)
    rw [contentAt?, isEntry]
    simp
  · rw [place_join isName, isCall.isSource, List.append_assoc]
  · rw [place_join isName, isCall.isImage, List.append_assoc]
  · intro above isAbove
    rcases mem_parents_join isName isCall.absolute isAbove with same | further
    · exact same ▸ isCall.isTarget
    · exact isCall.parentsAreTargets above further

/-- A copy leads from stage to stage. -/
theorem keptByCopies_isStage (settled : IsSettled top here destination) :
    KeptByCopies (IsStage top here destination)
      (fun path target => ∃ below, IsCall top here destination below path target) where
  makes := by
    intro path target isCall made isMade before after stage makes
    obtain ⟨below, isCall⟩ := isCall
    cases List.mem_cons.mp isMade with
    | inl isTarget => exact stage.makeDirectory (isTarget ▸ isCall.isTarget) makes
    | inr isParent => exact stage.makeDirectory (isCall.parentsAreTargets made isParent) makes
  transfers := by
    intro path target isCall before address origin there stage _ isPlace
    obtain ⟨below, isCall⟩ := isCall
    exact stage.transfer isCall.isTarget isPlace address
  deeper := by
    intro path target isCall made entries stage read entry member
    obtain ⟨below, isCall⟩ := isCall
    exact ⟨_, isCall.deeper settled stage read member⟩

/-! ## The calls of a copy -/

/-- A call for a directory that a copy comes to, in the state that it comes to it in: the first
call, and one for each directory that a call has read and has come to, once the entries before
it are copied. -/
inductive Visits (top : Node) (source destination : String) : Node → String → String → Prop where
  | start : Visits top source destination top source destination
  | deeper {state made between : Node} {path target : String} {entry : String × Node}
      {earlier later : List (String × Node)} :
      Visits top source destination state path target →
      makeDirectories target state = .ok () made →
      readDirectory made path = .ok (earlier ++ entry :: later) →
      earlier.forM (copyEntry path target) made = .ok () between →
      entry.2.isDirectory = true →
      path.utf8ByteSize < (join path entry.1).utf8ByteSize →
      (join path entry.1).utf8ByteSize < pathLimit →
      Visits top source destination between (join path entry.1) (join target entry.1)

/-- A directory that a call has read in a stage, and that was there before, was a directory. -/
theorem IsStage.isDirectory_of_read (stage : IsStage top here destination state)
    (leads : nodeAt state path = .ok (address, .directory entries))
    (member : (name, node) ∈ entries) (isDirectory : node.isDirectory = true)
    (isThere : contentAt? top (address ++ [name]) ≠ none) :
    contentAt? top (address ++ [name]) = some .directory := by
  have found := (stage.sound.mem_entries_iff (nodeAt_eq_ok_iff_spot.mp leads).2).mp member
  obtain ⟨content, isContent⟩ := Option.ne_none_iff_exists'.mp isThere
  have kept := stage.keeps _ content isContent
  rw [contentAt?, found] at kept
  cases node with
  | file | link => cases isDirectory
  | directory children =>
      rw [isContent]
      exact congrArg some (Content.eq_of_shape (Option.some.inj kept).symm (by simp))

/-- Every call is one for a directory that the source had. -/
theorem isStage_of_visits (settled : IsSettled top here destination) (sound : top.IsSound)
    (first : IsStage top here destination top)
    (isCall : IsCall top here destination [] source destination)
    (leads : nodeAt top source = .ok (here, .directory entries))
    (visits : Visits top source destination state path target) :
    IsStage top here destination state ∧ ∃ below inside,
      IsCall top here destination below path target ∧
        nodeAt top path = .ok (here ++ below, .directory inside) := by
  have kept := keptByCopies_isStage settled
  induction visits with
  | start => exact ⟨first, [], entries, isCall, by rw [List.append_nil, leads]⟩
  | @deeper state made between path target entry earlier later _ makes read row isDirectory _
      short ih =>
      obtain ⟨stage, below, inside, isCall, leads⟩ := ih
      have isCallToo : ∃ below, IsCall top here destination below path target := ⟨below, isCall⟩
      have stageMade := kept.holds_of_makeDirectories isCallToo stage (leaves_of_ok makes)
      have isCallEntry := fun (other : String × Node) (isIn : other ∈ earlier ++ entry :: later) =>
        isCall.deeper settled stageMade read isIn
      have stageBetween : IsStage top here destination between := by
        refine holds_of_leaves_forM (leaves_of_ok row) ?_ stageMade
        intro other member before after stageBefore leaves
        have isCallOther := isCallEntry other (List.mem_append_left _ member)
        exact kept.holds_of_copyEntry ⟨_, isCallOther⟩ stageBefore leaves
      have member : entry ∈ earlier ++ entry :: later :=
        List.mem_append_right _ List.mem_cons_self
      have isCallHere := isCallEntry entry member
      obtain ⟨address, leadsMade⟩ := readDirectory_eq_ok_iff_nodeAt.mp read
      have isAddress := place_of_nodeAt stageMade.linkless leadsMade
      rw [isCall.isSource] at isAddress
      cases isAddress
      -- What is a directory in this stage was one before, as nothing new lies in the source.
      have wasDirectory := stageMade.isDirectory_of_read leadsMade member isDirectory
        (List.append_assoc here below _ ▸ isCallHere.isThere)
      obtain ⟨children, found⟩ := contentAt?_eq_directory_iff.mp wasDirectory
      refine ⟨stageBetween, below ++ [entry.1], children, isCallHere, ?_⟩
      rw [← List.append_assoc]
      exact nodeAt_join sound leads found rfl short

/-- A directory that was there is still there. -/
theorem IsStage.nodeAt (stage : IsStage top here destination state)
    (leads : nodeAt top path = .ok (address, .directory entries)) :
    ∃ others, Disk.nodeAt state path = .ok (address, .directory others) := by
  obtain ⟨isSpot, found⟩ := nodeAt_eq_ok_iff_spot.mp leads
  obtain ⟨remaining, passes⟩ := exists_passes_of_nodeAt leads rfl
  have isDirectory := stage.keeps _ _ (contentAt?_eq_directory_iff.mpr ⟨entries, found⟩)
  obtain ⟨now, isNow, same⟩ := Option.map_eq_some_iff.mp isDirectory
  rw [Content.eq_of_shape same (by simp)] at isNow
  obtain ⟨others, foundNow⟩ := contentAt?_eq_directory_iff.mp isNow
  obtain ⟨noNul, short, -⟩ := spot_eq_ok_iff.mp isSpot
  have ends := (passes.mono stage.keeps).follow_use []
  rw [List.append_nil, follow_nil] at ends
  exact ⟨others, nodeAt_eq_ok_iff_spot.mpr ⟨spot_eq_ok_iff.mpr ⟨noNul, short, ends⟩, foundNow⟩⟩

/-- The first call of a copy is one for the source itself. -/
theorem isCall_start (linkless : IsLinkless top) (absolute : isAbsolute destination = true)
    (leads : nodeAt top source = .ok (here, .directory entries)) :
    IsCall top here destination [] source destination where
  isThere := by
    rw [List.append_nil, contentAt?, (nodeAt_eq_ok_iff_spot.mp leads).2]
    simp
  isSource := by rw [List.append_nil, place_of_nodeAt linkless leads]
  isImage := (List.append_nil _).symm
  absolute := absolute
  parentsAreTargets := fun path isParent => .inl ⟨path, isParent, rfl⟩

theorem isStage_start (sound : top.IsSound) (linkless : IsLinkless top)
    (isTop : contentAt? top [] = some .directory) (here : Address) (destination : String) :
    IsStage top here destination top where
  toIsLinklessDisk := ⟨sound, linkless, isTop⟩
  isNew := fun _ isThere => .inl isThere
  keeps := fun address content isContent => by rw [isContent, Option.map_some]

/-- A copy of a directory is nothing but the calls for it. -/
theorem leaves_copyTree_of_copy (leads : nodeAt top source = .ok (here, .directory entries))
    (destination : String) :
    Leaves (copyTree source destination) top ((copy source destination).after top) := by
  have leaves := leaves_after (copy source destination) top
  rw [Leaves, copy_of_leads leads] at leaves
  exact leaves_run leaves

/-- Without links, a copy of a directory comes only to directories that the source had, and makes
only the images of what the source had and the directories above its target, however it ends, if
the targets that lie in the source are there already. -/
theorem isTarget_of_copy (sound : top.IsSound) (linkless : IsLinkless top)
    (isDirectory : top.isDirectory = true) (absolute : isAbsolute current = true)
    (leads : nodeAt top (join current source) = .ok (here, .directory entries))
    (settled : IsSettled top here (join current destination)) :
    (∀ state path target,
      Visits top (join current source) (join current destination) state path target →
        ∃ below before now, nodeAt top path = .ok (here ++ below, .directory before) ∧
          nodeAt state path = .ok (here ++ below, .directory now)) ∧
    ∀ address, contentAt? (((host current).copy source destination).after top) address ≠ none →
      contentAt? top address ≠ none ∨ IsTarget top here (join current destination) address := by
  have first := isStage_start sound linkless (isTop_of_isDirectory isDirectory) here
    (join current destination)
  have isCall := isCall_start linkless (isAbsolute_join absolute destination) leads
  constructor
  · intro state path target visits
    obtain ⟨stage, below, before, -, leadsBefore⟩ :=
      isStage_of_visits settled sound first isCall leads visits
    obtain ⟨now, leadsNow⟩ := stage.nodeAt leadsBefore
    exact ⟨below, before, now, leadsBefore, leadsNow⟩
  · intro address isThere
    have stage := (keptByCopies_isStage settled).holds_of_copyTree ⟨[], isCall⟩ first
      (leaves_copyTree_of_copy leads (join current destination))
    exact stage.isNew address isThere

/-- A directory that holds an empty one and a file. -/
def withContents : Node :=
  .directory [("a", .directory [("d", .directory []), ("f", .file "text".toUTF8)])]

theorem isLinkless_withContents : IsLinkless withContents := by
  apply isLinkless_directory
  simp [isLinkless_directory, isLinkless_file]

theorem isSound_withContents : withContents.IsSound := by
  have inner : (Node.directory [("d", .directory []), ("f", .file "text".toUTF8)]).IsSound :=
    .directory (by decide +kernel) (by decide +kernel)
      (by simp [Node.IsSound.file, Node.IsSound.directory])
  refine .directory (by decide +kernel) (by decide +kernel) ?_
  intro entry member
  cases List.mem_singleton.mp member
  exact inner

/-- A copy to a place beside the source, in a directory that is missing. -/
theorem isTarget_of_copy_beside :
    (∃ entries, nodeAt withContents (join "/" "a") = .ok (["a"], .directory entries)) ∧
      IsSettled withContents ["a"] (join "/" "b/c") ∧
      (∀ state path target,
        Visits withContents (join "/" "a") (join "/" "b/c") state path target →
          ∃ below before now, nodeAt withContents path = .ok (["a"] ++ below, .directory before) ∧
            nodeAt state path = .ok (["a"] ++ below, .directory now)) ∧
      ∀ address,
        contentAt? (((host "/").copy "a" "b/c").after withContents) address ≠ none →
          contentAt? withContents address ≠ none ∨
            IsTarget withContents ["a"] (join "/" "b/c") address := by
  have leads : nodeAt withContents (join "/" "a") =
      .ok (["a"], .directory [("d", .directory []), ("f", .file "text".toUTF8)]) := rfl
  have settled : IsSettled withContents ["a"] (join "/" "b/c") := by
    have isPlace : place (join "/" "b/c") = ["b", "c"] := by decide +kernel
    have areParents : ∀ path ∈ parents (join "/" "b/c"), ¬["a"] <+: place path := by decide +kernel
    intro address isTarget within
    rcases isTarget with ⟨path, isParent, rfl⟩ | ⟨below, -, rfl⟩
    · exact absurd within (areParents path isParent)
    · rw [isPlace] at within
      simp at within
  exact ⟨⟨_, leads⟩, settled,
    isTarget_of_copy isSound_withContents isLinkless_withContents rfl (by decide) leads settled⟩

/-- A directory that is copied into itself is read when its copy is in it already. The copy is
then copied into itself, and so on. -/
theorem goes_on_in_own_copy :
    let top : Node := .directory [("a", .directory [])]
    IsLinkless top ∧ nodeAt top (join "/" "a") = .ok (["a"], .directory []) ∧
      (∃ state path target, Visits top (join "/" "a") (join "/" "a/b") state path target ∧
        ∀ below before, nodeAt top path ≠ .ok (["a"] ++ below, .directory before)) ∧
      ∃ address, contentAt? (((host "/").copy "a" "a/b").after top) address ≠ none ∧
        contentAt? top address = none ∧ ¬IsTarget top ["a"] (join "/" "a/b") address := by
  intro top
  let made : Node := .directory [("a", .directory [("b", .directory [])])]
  let madeAgain : Node := .directory [("a", .directory [("b", .directory [("b", .directory [])])])]
  have isSource : join "/" "a" = "/a" := by decide +kernel
  have isDestination : join "/" "a/b" = "/a/b" := by decide +kernel
  have leads : nodeAt top "/a" = .ok (["a"], .directory []) := rfl
  have makes : makeDirectories "/a/b" top = .ok () made := rfl
  have read : readDirectory made "/a" = .ok ([] ++ ("b", .directory []) :: []) := rfl
  have row : [].forM (copyEntry "/a" "/a/b") made = .ok () made := rfl
  have longer : "/a".utf8ByteSize < (join "/a" "b").utf8ByteSize := by decide +kernel
  have short : (join "/a" "b").utf8ByteSize < pathLimit := by decide +kernel
  rw [isSource, isDestination]
  refine ⟨isLinkless_directory (by simp [isLinkless_directory]), leads,
    ⟨made, "/a/b", "/a/b/b", ?_, ?_⟩, ["a", "b", "b"], ?_, rfl, ?_⟩
  · exact Visits.deeper .start makes read row rfl longer short
  · intro below before leadsBefore
    have nothing : nodeAt top "/a/b" = .error .noEntry := rfl
    rw [nothing] at leadsBefore
    cases leadsBefore
  · -- The call for the entry that was just made begins with a directory in it, and all that is
    -- there stays there.
    have makesAgain : makeDirectories "/a/b/b" made = .ok () madeAgain := rfl
    have makesNoMore : makeDirectories "/a/b/b" madeAgain = .ok () madeAgain := rfl
    have isSecond : copyTree "/a/b" "/a/b/b" made = copyTree "/a/b" "/a/b/b" madeAgain := by
      rw [copyTree_of_made makesAgain, copyTree_of_made makesNoMore]
    have isFirst : copyTree "/a" "/a/b" top = copyTree "/a/b" "/a/b/b" made := by
      have isEntry : copyEntry "/a" "/a/b" ("b", .directory []) = copyTree "/a/b" "/a/b/b" := by
        rw [copyEntry, if_pos (by rfl), if_pos ⟨longer, short⟩]
        rfl
      rw [copyTree_of_made makes, read, ← isEntry]
      exact forM_concat row
    have isCopy : (host "/").copy "a" "a/b" = copy "/a" "/a/b" := by
      rw [← isSource, ← isDestination]
      rfl
    have leaves := leaves_copyTree_of_copy leads "/a/b"
    rw [Leaves, isFirst, isSecond] at leaves
    rw [isCopy]
    exact (grows_of_copyTree rfl leaves).2 ["a", "b", "b"] (by decide)
  · intro isTarget
    rcases isTarget with ⟨path, isParent, isPlace⟩ | ⟨below, isThere, isPlace⟩
    · have areParents : ∀ path ∈ parents "/a/b", place path ≠ ["a", "b", "b"] := by
        decide +kernel
      exact areParents path isParent isPlace
    · have isTargetPlace : place "/a/b" = ["a", "b"] := by decide +kernel
      rw [isTargetPlace] at isPlace
      cases isPlace
      exact isThere rfl

end ScriptView.Disk
