import ScriptView.Proofs.Disk.Copy
import ScriptView.View

/-!
# Copying onto itself

A file is emptied before its bytes are read. Where two paths lead to one place, a copy from one
to the other therefore empties the file that is there, or all files that the entries of the
directory there and of those below it lead to.
-/

namespace ScriptView.Disk

open ScriptView.Action

variable {top before between after left : Node} {source destination current path name : String}
  {here address : Address} {covered : Address → Prop} {call : Call Unit} {fault : Fault}
  {entries : List (String × Node)} {node : Node}

/-! ## Emptied files -/

/-- Only covered files differ afterwards, and these are empty. -/
def Empties (covered : Address → Prop) (before after : Node) : Prop :=
  ∀ address, contentAt? after address = contentAt? before address ∨
    covered address ∧ (∃ bytes, contentAt? before address = some (.file bytes)) ∧
      contentAt? after address = some (.file .empty)

namespace Empties

theorem refl (covered : Address → Prop) (top : Node) : Empties covered top top :=
  fun _ => .inl rfl

theorem sameShape (empties : Empties covered before after) : SameShape before after := by
  intro address
  rcases empties address with same | ⟨-, ⟨bytes, isFile⟩, isEmpty⟩
  · rw [same]
  · rw [isFile, isEmpty]
    rfl

theorem keeps (empties : Empties covered before after)
    (isEmpty : contentAt? before address = some (.file .empty)) :
    contentAt? after address = some (.file .empty) := by
  rcases empties address with same | ⟨-, -, emptied⟩
  · rw [same, isEmpty]
  · exact emptied

theorem trans (first : Empties covered before between) (second : Empties covered between after) :
    Empties covered before after := by
  intro address
  rcases first address with same | ⟨isCovered, isFile, isEmpty⟩
  · rcases second address with sameThen | ⟨isCovered, ⟨bytes, isFile⟩, isEmpty⟩
    · exact .inl (sameThen.trans same)
    · exact .inr ⟨isCovered, ⟨bytes, same ▸ isFile⟩, isEmpty⟩
  · exact .inr ⟨isCovered, isFile, second.keeps isEmpty⟩

theorem mono {others : Address → Prop} (empties : Empties covered before after)
    (within : ∀ address, covered address → others address) : Empties others before after := by
  intro address
  rcases empties address with same | ⟨isCovered, isFile, isEmpty⟩
  · exact .inl same
  · exact .inr ⟨within address isCovered, isFile, isEmpty⟩

end Empties

/-- A call empties covered files only, and all of them if it ends well. -/
structure EmptiesAt (covered : Address → Prop) (call : Call Unit) (before : Node) : Prop where
  sound : ∀ after, Leaves call before after → after.IsSound
  only : ∀ after, Leaves call before after → Empties covered before after
  all : ∀ after, call before = .ok () after → ∀ address bytes, covered address →
    contentAt? before address = some (.file bytes) → contentAt? after address = some (.file .empty)

namespace EmptiesAt

theorem of_error (sound : top.IsSound) (fails : call top = .error fault top) :
    EmptiesAt covered call top where
  sound := by
    intro after leaves
    rw [eq_of_leaves_of_error leaves fails]
    exact sound
  only := by
    intro after leaves
    rw [eq_of_leaves_of_error leaves fails]
    exact .refl covered top
  all := by
    intro after ends
    rw [fails] at ends
    cases ends

theorem congr {others : Address → Prop} {other : Call Unit} (empties : EmptiesAt covered call top)
    (same : other top = call top)
    (agree : ∀ address bytes, contentAt? top address = some (.file bytes) →
      (covered address ↔ others address)) :
    EmptiesAt others other top := by
  have leavesSame : ∀ after, Leaves other top after → Leaves call top after := by
    intro after leaves
    rwa [Leaves, same] at leaves
  refine ⟨fun after leaves => empties.sound after (leavesSame after leaves), ?_, ?_⟩
  · intro after leaves address
    rcases empties.only after (leavesSame after leaves) address with
      kept | ⟨isCovered, ⟨bytes, isFile⟩, isEmpty⟩
    · exact .inl kept
    · exact .inr ⟨(agree address bytes isFile).mp isCovered, ⟨bytes, isFile⟩, isEmpty⟩
  · intro after ends address bytes isCovered isFile
    rw [same] at ends
    exact empties.all after ends address bytes ((agree address bytes isFile).mpr isCovered) isFile

/-- A row of calls empties what each of them does. -/
theorem forM {β : Type} {covers : β → Address → Prop} {row : List β} {action : β → Call Unit}
    (each : ∀ item ∈ row, ∀ state, state.IsSound → SameShape top state →
      EmptiesAt (covers item) (action item) state)
    (soundBefore : before.IsSound) (same : SameShape top before) :
    EmptiesAt (fun address => ∃ item ∈ row, covers item address) (row.forM action) before := by
  induction row generalizing before with
  | nil =>
      refine ⟨?_, ?_, ?_⟩
      · intro after leaves
        rw [eq_of_leaves_of_ok leaves rfl]
        exact soundBefore
      · intro after leaves
        rw [eq_of_leaves_of_ok leaves rfl]
        exact .refl _ before
      · intro after _ address bytes isCovered
        obtain ⟨item, member, -⟩ := isCovered
        cases member
  | cons item rest ih =>
      rw [List.forall_mem_cons] at each
      have first := each.1 before soundBefore same
      have others : ∀ between, Leaves (action item) before between →
          EmptiesAt (fun address => ∃ item ∈ rest, covers item address) (rest.forM action) between :=
        fun between leaves =>
          ih each.2 (first.sound between leaves) (same.trans (first.only between leaves).sameShape)
      refine ⟨?_, ?_, ?_⟩
      · intro after leaves
        rcases leaves_of_bind leaves with ⟨error, fails⟩ | ⟨_, between, ends, goesOn⟩
        · exact first.sound after (leaves_of_error fails)
        · exact (others between (leaves_of_ok ends)).sound after goesOn
      · intro after leaves
        have here : ∀ between, Leaves (action item) before between →
            Empties (fun address => ∃ other ∈ item :: rest, covers other address) before between :=
          fun between leaves => (first.only between leaves).mono fun address isCovered =>
            ⟨item, List.mem_cons_self, isCovered⟩
        rcases leaves_of_bind leaves with ⟨error, fails⟩ | ⟨_, between, ends, goesOn⟩
        · exact here after (leaves_of_error fails)
        · refine (here between (leaves_of_ok ends)).trans ?_
          refine ((others between (leaves_of_ok ends)).only after goesOn).mono ?_
          intro address isCovered
          obtain ⟨other, member, covers⟩ := isCovered
          exact ⟨other, List.mem_cons_of_mem _ member, covers⟩
      · intro after ends address bytes isCovered isFile
        obtain ⟨_, between, begins, goesOn⟩ := exists_of_bind_eq_ok ends
        have furtherOnly := (others between (leaves_of_ok begins)).only after (leaves_of_ok goesOn)
        obtain ⟨other, member, covers⟩ := isCovered
        -- What the first item has emptied stays empty, and all else is left for the others.
        cases List.mem_cons.mp member with
        | inl isHere =>
            rw [isHere] at covers
            exact furtherOnly.keeps (first.all between begins address bytes covers isFile)
        | inr further =>
            rcases first.only between (leaves_of_ok begins) address with kept | ⟨-, -, isEmpty⟩
            · rw [← kept] at isFile
              exact (others between (leaves_of_ok begins)).all after goesOn address bytes
                ⟨other, further, covers⟩ isFile
            · exact furtherOnly.keeps isEmpty

end EmptiesAt

/-! ## What a directory covers -/

/-- An entry of a directory, or of one below it, leads to an address. -/
def Covers (top : Node) (here address : Address) : Prop :=
  ∃ directory name, here <+: directory ∧ contentAt? top directory = some .directory ∧
    follow top .use linkLimit directory [name] = .ok (.taken address)

/-- What one entry of a directory leads to, or what it covers if it is a directory itself. -/
def CoversIn (top : Node) (here : Address) (entry : String × Node) (address : Address) : Prop :=
  if entry.2.isDirectory then Covers top (here ++ [entry.1]) address
  else follow top .use linkLimit here [entry.1] = .ok (.taken address)

theorem Covers.congr {other : Node} (covers : Covers top here address)
    (same : SameShape top other) : Covers other here address := by
  obtain ⟨directory, name, below, isDirectory, leads⟩ := covers
  rw [follow_congr same] at leads
  exact ⟨directory, name, below, same.isDirectory isDirectory, leads⟩

/-- A single name that leads to a file is that of an entry which is no directory. -/
theorem exists_entry_of_follow {bytes : ByteArray} (sound : top.IsSound)
    (found : top.get? here = some (.directory entries))
    (leads : follow top .use linkLimit here [name] = .ok (.taken address))
    (isFile : contentAt? top address = some (.file bytes)) :
    ∃ node, (name, node) ∈ entries ∧ node.isDirectory = false := by
  have isHere := contentAt?_eq_directory_iff.mpr ⟨entries, found⟩
  have notDirectory : contentAt? top address ≠ some .directory := by
    rw [isFile]
    simp
  by_cases void : isVoid name = true
  · rw [follow_void void, follow_nil] at leads
    cases leads
    contradiction
  · by_cases up : name = ".."
    · rw [up, follow_up, follow_nil] at leads
      cases leads
      exact absurd (isDirectory_of_isPrefix (List.dropLast_prefix _) isHere) notDirectory
    · obtain ⟨leadsDown, allowed⟩ := leadsDown_of_follow leads (Bool.eq_false_iff.mpr void) up
      rw [follow_leadsDown leadsDown allowed] at leads
      split at leads
      · cases leads
      · next isFile =>
        have member := (sound.mem_entries_iff found).mpr (contentAt?_eq_file_iff.mp isFile)
        exact ⟨_, member, rfl⟩
      · next isDirectory =>
        rw [follow_nil] at leads
        cases leads
        contradiction
      · next target isLink =>
        have member := (sound.mem_entries_iff found).mpr (contentAt?_eq_link_iff.mp isLink)
        exact ⟨_, member, rfl⟩

/-- A directory covers what its entries do. -/
theorem covers_iff_exists {bytes : ByteArray} (sound : top.IsSound)
    (found : top.get? here = some (.directory entries))
    (isFile : contentAt? top address = some (.file bytes)) :
    Covers top here address ↔ ∃ entry ∈ entries, CoversIn top here entry address := by
  have isHere := contentAt?_eq_directory_iff.mpr ⟨entries, found⟩
  constructor
  · intro covers
    obtain ⟨directory, name, ⟨below, rfl⟩, isDirectory, leads⟩ := covers
    cases below with
    | nil =>
        rw [List.append_nil] at leads
        obtain ⟨node, member, notDirectory⟩ := exists_entry_of_follow sound found leads isFile
        refine ⟨(name, node), member, ?_⟩
        rw [CoversIn, notDirectory, if_neg Bool.false_ne_true]
        exact leads
    | cons first below =>
        rw [List.append_cons] at isDirectory leads
        have above := isDirectory_of_isPrefix (List.prefix_append _ below) isDirectory
        obtain ⟨children, isChild⟩ := contentAt?_eq_directory_iff.mp above
        refine ⟨(first, .directory children), (sound.mem_entries_iff found).mpr isChild, ?_⟩
        rw [CoversIn, Node.isDirectory, if_pos rfl]
        exact ⟨_, name, List.prefix_append _ below, isDirectory, leads⟩
  · intro covers
    obtain ⟨entry, member, isCovered⟩ := covers
    rw [CoversIn] at isCovered
    split at isCovered
    · obtain ⟨directory, name, below, isDirectory, leads⟩ := isCovered
      exact ⟨directory, name, (List.prefix_append _ _).trans below, isDirectory, leads⟩
    · exact ⟨here, entry.1, List.prefix_rfl, isHere, isCovered⟩

/-! ## Copies -/

/-- Two paths that lead to one place, the second one to be written. -/
def LeadTogether (top : Node) (source destination : String) : Prop :=
  ∀ goal other, spot top .use source = .ok goal → spot top .write destination = .ok other →
    goal = other

theorem leadTogether_of_nodeAt (leads : nodeAt top source = .ok (address, node))
    (leadsToo : nodeAt top destination = .ok (address, node)) :
    LeadTogether top source destination := by
  intro goal other isSpot isOther
  obtain ⟨-, -, ends⟩ := spot_eq_ok_iff.mp isOther
  obtain ⟨isGoal, -⟩ := nodeAt_eq_ok_iff_spot.mp leads
  obtain ⟨-, -, endsToo⟩ := spot_eq_ok_iff.mp (nodeAt_eq_ok_iff_spot.mp leadsToo).1
  rw [isSpot] at isGoal
  rw [Except.ok.inj isGoal]
  exact eq_of_follow (by simp) (by simp) endsToo ends

/-- A file that is copied onto itself is empty afterwards. -/
theorem exists_of_copyFile_together (isTop : contentAt? top [] = some .directory)
    (sound : top.IsSound) (together : LeadTogether top source destination)
    (leaves : Leaves (copyFile source destination) top left) :
    (left = top ∧ ∃ fault, copyFile source destination top = .error fault top) ∨
      ∃ address bytes, spot top .use source = .ok (.taken address) ∧
        contentAt? top address = some (.file bytes) ∧ left.IsSound ∧
        ∀ other, contentAt? left other =
          if other = address then some (.file .empty) else contentAt? top other := by
  rcases copyFile_cases leaves with fails | ⟨address, bytes, place, leads, isPlace, rfl⟩
  · exact .inl fails
  · obtain ⟨isSpot, found⟩ := nodeAt_eq_ok_iff_spot.mp leads
    obtain ⟨goal, isGoal, isAddress, -⟩ := writable_eq_ok_iff.mp isPlace
    rw [← together _ _ isSpot isGoal] at isAddress
    cases isAddress
    obtain ⟨rest, isEmpty, contents⟩ := exists_contentAt?_transfer isTop isPlace address
    rw [isEmpty rfl] at contents
    exact .inr ⟨address, bytes, isSpot, contentAt?_eq_file_iff.mpr found,
      isSound_transfer sound (sound.get? found).2 address, contents⟩

theorem emptiesAt_copyFile (isTop : contentAt? top [] = some .directory) (sound : top.IsSound)
    (together : LeadTogether top source destination)
    (covers : ∀ goal, spot top .use source = .ok goal →
      ∀ address, covered address ↔ goal = .taken address) :
    EmptiesAt covered (copyFile source destination) top := by
  refine ⟨?_, ?_, ?_⟩
  · intro after leaves
    rcases exists_of_copyFile_together isTop sound together leaves with
      ⟨same, -⟩ | ⟨address, bytes, -, -, soundAfter, -⟩
    · exact same ▸ sound
    · exact soundAfter
  · intro after leaves other
    rcases exists_of_copyFile_together isTop sound together leaves with
      ⟨same, -⟩ | ⟨address, bytes, isSpot, isFile, -, contents⟩
    · exact .inl (congrArg (contentAt? · other) same)
    · rw [contents]
      split
      · next here =>
        cases here
        exact .inr ⟨(covers _ isSpot _).mpr rfl, ⟨bytes, isFile⟩, rfl⟩
      · exact .inl rfl
  · intro after ends other bytes isCovered _
    rcases exists_of_copyFile_together isTop sound together (leaves_of_ok ends) with
      ⟨-, fault, fails⟩ | ⟨address, bytes, isSpot, -, -, contents⟩
    · rw [ends] at fails
      cases fails
    · cases (covers _ isSpot _).mp isCovered
      rw [contents, if_pos rfl]

/-- Behind paths that lead to one directory, a name leads to one place, and to nothing that is
not found from the directory itself. -/
theorem leadTogether_join (leads : nodeAt top source = .ok (here, .directory entries))
    (leadsToo : nodeAt top destination = .ok (here, .directory entries))
    (isName : IsFileName name) :
    LeadTogether top (join source name) (join destination name) ∧
      ∀ goal, spot top .use (join source name) = .ok goal →
        follow top .use linkLimit here [name] = .ok goal := by
  obtain ⟨left, enough, follows⟩ := exists_follow_join leads rfl isName.isSegment
  obtain ⟨more, -, followsToo⟩ := exists_follow_join leadsToo rfl isName.isSegment
  have written : Purpose.write.Allows [name] := by
    simp [Purpose.Allows, isOnlySlashes, isName.nonempty]
  constructor
  · intro goal other isSpot isOther
    obtain ⟨-, -, ends⟩ := spot_eq_ok_iff.mp isSpot
    obtain ⟨-, -, endsToo⟩ := spot_eq_ok_iff.mp isOther
    rw [follows .use trivial] at ends
    rw [followsToo .write written] at endsToo
    exact eq_of_follow (by simp) (by simp) ends endsToo
  · intro goal isSpot
    obtain ⟨-, -, ends⟩ := spot_eq_ok_iff.mp isSpot
    rw [follows .use trivial] at ends
    exact follow_use_of_follow (by simp) ends enough

theorem SameShape.nodeAt {other : Node} {others : Node} (same : SameShape top other)
    (leads : nodeAt top path = .ok (address, node)) (found : other.get? address = some others) :
    nodeAt other path = .ok (address, others) := by
  obtain ⟨isSpot, -⟩ := nodeAt_eq_ok_iff_spot.mp leads
  rw [spot_eq_ok_iff, follow_congr same, ← spot_eq_ok_iff] at isSpot
  exact nodeAt_eq_ok_iff_spot.mpr ⟨isSpot, found⟩

/-- A directory is there, or its path cannot be followed. -/
theorem makeDirectories_of_leads_or_long (leads : path.utf8ByteSize < pathLimit →
      nodeAt top path = .ok (address, .directory entries)) :
    (path.utf8ByteSize < pathLimit ∧ makeDirectories path top = .ok () top) ∨
      ∃ fault, makeDirectories path top = .error fault top := by
  by_cases short : path.utf8ByteSize < pathLimit
  · exact .inl ⟨short, makeDirectories_of_leads (leads short) rfl⟩
  · refine .inr (makeFirst_of_unchecked ?_ _ _)
    intro isChecked
    exact short (checked_eq_ok_iff.mp isChecked).2.2

/-- A directory in one that is copied onto itself is copied onto itself, unless a path gets too
long. -/
theorem emptiesAt_copyEntry {inside : List (String × Node)} (sound : top.IsSound)
    (leads : nodeAt top source = .ok (here, .directory entries))
    (leadsToo : nodeAt top destination = .ok (here, .directory entries))
    (found : top.get? (here ++ [name]) = some (.directory inside))
    (isDirectory : node.isDirectory = true)
    (deeper : nodeAt top (join source name) = .ok (here ++ [name], .directory inside) →
      nodeAt top (join destination name) = .ok (here ++ [name], .directory inside) →
      EmptiesAt covered (copyTree (join source name) (join destination name)) top) :
    EmptiesAt covered (copyEntry source destination (name, node)) top := by
  have makes := makeDirectories_of_leads_or_long (nodeAt_join sound leadsToo found rfl)
  rw [copyEntry, isDirectory, if_pos rfl]
  split
  · next short =>
    rcases makes with ⟨shortToo, -⟩ | ⟨fault, fails⟩
    · exact deeper (nodeAt_join sound leads found rfl short.2)
        (nodeAt_join sound leadsToo found rfl shortToo)
    · refine EmptiesAt.of_error sound (?_ : _ = EStateM.Result.error fault top)
      rw [copyTree]
      exact bind_of_error fails
  · rcases makes with ⟨-, makesAgain⟩ | ⟨fault, fails⟩
    · exact EmptiesAt.of_error sound (bind_of_ok makesAgain)
    · exact EmptiesAt.of_error sound (bind_of_error fails)

/-- A copy of an entry that is no directory empties what its name leads to. -/
theorem emptiesAt_copyEntry_of_file (isTop : contentAt? top [] = some .directory)
    (sound : top.IsSound) (leads : nodeAt top source = .ok (here, .directory entries))
    (leadsToo : nodeAt top destination = .ok (here, .directory entries))
    (isName : IsFileName name) (notDirectory : node.isDirectory = false) :
    EmptiesAt (fun address => follow top .use linkLimit here [name] = .ok (.taken address))
      (copyEntry source destination (name, node)) top := by
  have isCopy : copyEntry source destination (name, node) =
      copyFile (join source name) (join destination name) := by
    rw [copyEntry, notDirectory, if_neg Bool.false_ne_true]
  obtain ⟨together, follows⟩ := leadTogether_join leads leadsToo isName
  rw [isCopy]
  apply emptiesAt_copyFile isTop sound together
  intro goal isSpot address
  rw [follows goal isSpot]
  exact ⟨Except.ok.inj, congrArg _⟩

/-- A copy of a directory onto itself empties the files that it covers. -/
theorem emptiesAt_copyTree {top : Node} {source destination : String} {here : Address}
    {entries : List (String × Node)} (isTop : contentAt? top [] = some .directory)
    (sound : top.IsSound) (leads : nodeAt top source = .ok (here, .directory entries))
    (leadsToo : nodeAt top destination = .ok (here, .directory entries)) :
    EmptiesAt (Covers top here) (copyTree source destination) top := by
  have makes := makeDirectories_of_leads leadsToo rfl
  have read := readDirectory_eq_ok_iff_nodeAt.mpr ⟨here, leads⟩
  have found := (nodeAt_eq_ok_iff_spot.mp leads).2
  have same : copyTree source destination top =
      entries.forM (copyEntry source destination) top := by
    rw [copyTree_of_made makes, read]
  -- Only the bytes of files change meanwhile, so each entry is still what was listed.
  have each : ∀ entry ∈ entries, ∀ state, state.IsSound → SameShape top state →
      EmptiesAt (CoversIn top here entry) (copyEntry source destination entry) state := by
    intro entry member state soundState shape
    obtain ⟨name, node⟩ := entry
    have isName := isFileName_of_read sound read member
    have isTopState := shape.isDirectory isTop
    obtain ⟨others, foundState⟩ := contentAt?_eq_directory_iff.mp
      (shape.isDirectory (contentAt?_eq_directory_iff.mpr ⟨entries, found⟩))
    have leadsState := shape.nodeAt leads foundState
    have leadsTooState := shape.nodeAt leadsToo foundState
    cases isDirectory : node.isDirectory with
    | false =>
        have empties := emptiesAt_copyEntry_of_file isTopState soundState leadsState leadsTooState
          isName isDirectory
        apply empties.congr rfl
        intro address bytes _
        rw [CoversIn, isDirectory, if_neg Bool.false_ne_true, follow_congr shape]
    | true =>
        obtain ⟨children, rfl⟩ : ∃ children, node = .directory children := by
          cases node with
          | file | link => cases isDirectory
          | directory children => exact ⟨children, rfl⟩
        have isChild := contentAt?_eq_directory_iff.mpr
          ⟨children, (sound.mem_entries_iff found).mp member⟩
        obtain ⟨inside, foundChild⟩ := contentAt?_eq_directory_iff.mp (shape.isDirectory isChild)
        apply emptiesAt_copyEntry soundState leadsState leadsTooState foundChild isDirectory
        intro leadsChild leadsChildToo
        have longer : source.utf8ByteSize < (join source name).utf8ByteSize :=
          utf8ByteSize_lt_join isName.isSegment isName.nonempty source
        have short := short_of_nodeAt leadsChild
        have inChild := emptiesAt_copyTree isTopState soundState leadsChild leadsChildToo
        apply inChild.congr rfl
        intro address bytes _
        rw [CoversIn, isDirectory, if_pos rfl]
        exact ⟨fun covers => covers.congr shape.symm, fun covers => covers.congr shape⟩
  have row := EmptiesAt.forM each sound (.refl top)
  exact row.congr same fun address bytes isFile => (covers_iff_exists sound found isFile).symm
termination_by pathLimit - source.utf8ByteSize

/-- A copy from a path to another one that leads to the same place is the copy of a file or of a
directory onto itself. -/
theorem exists_call_of_copy (isTop : contentAt? top [] = some .directory) (sound : top.IsSound)
    (absolute : isAbsolute destination = true) (leads : nodeAt top source = .ok (here, node))
    (leadsToo : nodeAt top destination = .ok (here, node)) :
    ∃ toError call, copy source destination top = run toError call top ∧
      EmptiesAt (fun address => address = here ∨ Covers top here address) call top := by
  have found := (nodeAt_eq_ok_iff_spot.mp leads).2
  have asked : run (.ofFileFault source) (ask (nodeAt · source)) top = .ok (here, node) top := by
    rw [run, ask_eq_ok_iff.mpr ⟨leads, rfl⟩]
  refine ⟨.ofFileFault source, ?_⟩
  rw [copy, bind_of_ok asked]
  dsimp only
  split
  · next isDirectory =>
    obtain ⟨entries, rfl⟩ : ∃ entries, node = .directory entries := by
      cases node with
      | file | link => cases isDirectory
      | directory entries => exact ⟨entries, rfl⟩
    refine ⟨copyTree source destination, rfl, ?_⟩
    apply (emptiesAt_copyTree isTop sound leads leadsToo).congr rfl
    intro address bytes isFile
    refine ⟨.inr, fun covers => covers.resolve_left ?_⟩
    rintro rfl
    rw [contentAt?_eq_file_iff, found] at isFile
    cases isFile
  · next notDirectory =>
    refine ⟨copyFile source destination,
      bind_of_ok (makeParent_of_leads absolute isTop leadsToo), ?_⟩
    have atHere : EmptiesAt (· = here) (copyFile source destination) top := by
      apply emptiesAt_copyFile isTop sound (leadTogether_of_nodeAt leads leadsToo)
      intro goal isSpot address
      cases isSpot.symm.trans (nodeAt_eq_ok_iff_spot.mp leads).1
      exact ⟨fun same => same ▸ rfl, fun same => (Spot.taken.inj same).symm⟩
    apply atHere.congr rfl
    intro address bytes isFile
    refine ⟨.inl, fun covers => covers.resolve_right ?_⟩
    intro covers
    obtain ⟨directory, name, below, isDirectory, -⟩ := covers
    obtain ⟨entries, isHere⟩ := contentAt?_eq_directory_iff.mp
      (isDirectory_of_isPrefix below isDirectory)
    rw [found] at isHere
    cases isHere
    exact notDirectory rfl

/-- The condition under which a copy onto itself has nothing to lose: what is at an address and
all that it covers is empty already. -/
def IsBlank (top : Node) (here : Address) : Prop :=
  ∀ address bytes, address = here ∨ Covers top here address →
    contentAt? top address = some (.file bytes) → bytes = .empty

/-- A copy onto itself leaves every text as it is if there is nothing to lose, and only then if it
ends well. -/
theorem unchanged_of_onto_self (sound : top.IsSound) (isDirectory : top.isDirectory = true)
    (absolute : isAbsolute current = true)
    (leads : nodeAt top (join current source) = .ok (here, node))
    (leadsToo : nodeAt top (join current destination) = .ok (here, node)) :
    (IsBlank top here → ∀ address,
      contentAt? (((host current).copy source destination).after top) address =
        contentAt? top address) ∧
    ∀ left, (host current).copy source destination top = .ok () left →
      (∀ address, contentAt? left address = contentAt? top address) → IsBlank top here := by
  have isTop := isTop_of_isDirectory isDirectory
  obtain ⟨toError, call, isCall, empties⟩ := exists_call_of_copy isTop sound
    (isAbsolute_join absolute destination) leads leadsToo
  have isRun : (host current).copy source destination top = run toError call top := isCall
  constructor
  · intro blank address
    have leaves := leaves_after ((host current).copy source destination) top
    rw [Leaves, isRun] at leaves
    rcases empties.only _ (leaves_run leaves) address with same | ⟨covers, ⟨bytes, isFile⟩, isEmpty⟩
    · exact same
    · rw [isEmpty, isFile, blank address bytes covers isFile]
  · intro left ends unchanged address bytes covers isFile
    rw [isRun] at ends
    have isEmpty := empties.all left (eq_ok_of_run ends) address bytes covers isFile
    rw [unchanged, isFile] at isEmpty
    cases isEmpty
    rfl

/-- An empty file beside one with a text. -/
def emptyBeside : Node :=
  .directory [("f", .file .empty), ("g", .file "text".toUTF8)]

theorem isSound_emptyBeside : emptyBeside.IsSound :=
  .directory (by decide +kernel) (by decide +kernel) (by simp [Node.IsSound.file])

/-- A copy of the empty file to another spelling of its path. -/
theorem unchanged_of_onto_self_empty :
    nodeAt emptyBeside (join "/" "f") = .ok (["f"], .file .empty) ∧
      nodeAt emptyBeside (join "/" "./f") = .ok (["f"], .file .empty) ∧
      IsBlank emptyBeside ["f"] ∧
      ∀ address, contentAt? (((host "/").copy "f" "./f").after emptyBeside) address =
        contentAt? emptyBeside address := by
  have leads : nodeAt emptyBeside (join "/" "f") = .ok (["f"], .file .empty) := rfl
  have leadsToo : nodeAt emptyBeside (join "/" "./f") = .ok (["f"], .file .empty) := rfl
  have keeps := unchanged_of_onto_self isSound_emptyBeside rfl rfl leads leadsToo
  have blank := keeps.2 emptyBeside rfl fun _ => rfl
  exact ⟨leads, leadsToo, blank, keeps.1 blank⟩

/-- A file is emptied by a copy to another spelling of its path, to a link to it, or to the path
of its script as seen through a mapping. -/
theorem emptied_by_copy_onto_self :
    (host "/").copy "f" "./f" (.directory [("f", .file "text".toUTF8)]) =
        .ok () (.directory [("f", .file .empty)]) ∧
      (host "/").copy "f" "l" (.directory [("f", .file "text".toUTF8), ("l", .link "f")]) =
        .ok () (.directory [("f", .file .empty), ("l", .link "f")]) ∧
      ((host "/").view .standard).copy "App.vue.ts" "App.vue"
          (.directory [("App.vue", .file "text".toUTF8)]) =
        .ok () (.directory [("App.vue", .file .empty)]) ∧
      "text".toUTF8 ≠ .empty :=
  ⟨rfl, rfl, rfl, by decide +kernel⟩

end ScriptView.Disk
