import ScriptView.Proofs.Disk.Search
import ScriptView.Proofs.Disk.Sound

/-!
# Directories that a search is in

A search follows a link unless it leads to the directory that holds the link or above it. The
directories further out, through which the search came there, are not looked at. So a search
comes back to a directory that it is in exactly if some link leads to one of those or above
one, and paths through the link are not too long by then.
-/

namespace ScriptView.Disk

variable {top node : Node} {start directory link path name : String} {others : List String}
  {entry : String × Node} {entries : List (String × Node)} {address : Address}

/-! ## Going on -/

/-- A search in a directory goes on in an entry of it. -/
def Enters (top : Node) (directory : String) (entry : String × Node) : Prop :=
  ∃ entries, readDirectory top directory = .ok entries ∧ entry ∈ entries ∧
    isEntered top directory (join directory entry.1) entry.2 = true

/-- The directories that a search is in at one time, the innermost first. -/
inductive InSearch (top : Node) (start : String) : List String → Prop where
  | start : InSearch top start [start]
  | deeper {directory : String} {others : List String} {entry : String × Node} :
      InSearch top start (directory :: others) → Enters top directory entry →
      InSearch top start (join directory entry.1 :: directory :: others)

/-- A search finds a file in a directory. -/
def FindsIn (top : Node) (directory path : String) : Prop :=
  ∃ entries, readDirectory top directory = .ok entries ∧ ∃ entry ∈ entries,
    join directory entry.1 = path ∧ countsAsFile top path entry.2 = true

/-! ## What a search finds -/

theorem filesBelow_of_long (long : ¬directory.utf8ByteSize < pathLimit) :
    filesBelow top directory = [] := by
  rw [filesBelow]
  split
  · rfl
  · next entries read =>
    obtain ⟨address, leads⟩ := readDirectory_eq_ok_iff_nodeAt.mp read
    exact absurd (short_of_nodeAt leads) long

/-- A search goes through the entries of a directory. -/
theorem filesBelow_of_read (sound : top.IsSound)
    (read : readDirectory top directory = .ok entries) :
    filesBelow top directory = entries.flatMap fun entry =>
      if countsAsFile top (join directory entry.1) entry.2 then [join directory entry.1]
      else if isEntered top directory (join directory entry.1) entry.2 then
        filesBelow top (join directory entry.1)
      else [] := by
  rw [filesBelow, read]
  apply List.flatMap_congr
  intro entry member
  have isName := isFileName_of_read sound read member
  have longer := utf8ByteSize_lt_join isName.isSegment isName.nonempty directory
  by_cases short : (join directory entry.1).utf8ByteSize < pathLimit
  · simp [longer, short]
  · simp [filesBelow_of_long short]

theorem InSearch.extend {directories : List String}
    (inSearch : InSearch top (join start entry.1) directories) (enters : Enters top start entry) :
    InSearch top start (directories ++ [start]) := by
  induction inSearch with
  | start => exact .deeper .start enters
  | deeper _ further ih => exact .deeper ih further

theorem countsAsFile_of_isEntered (entered : isEntered top directory path node = true) :
    countsAsFile top path node = false := by
  cases node with
  | file => contradiction
  | directory => rfl
  | link target =>
      have leads := (Bool.and_eq_true_iff.mp entered).1
      rw [leadsToDirectory] at leads
      change leadsToFile top path = false
      rw [leadsToFile]
      split at leads
      · next address found _ =>
        cases found with
        | file | link => contradiction
        | directory => rfl
      · contradiction

/-- A path is found in a search of a directory if it is found in the directory or in a search of
one in it. -/
theorem mem_filesBelow_iff_or (sound : top.IsSound) :
    path ∈ filesBelow top directory ↔
      FindsIn top directory path ∨
        ∃ entry, Enters top directory entry ∧ path ∈ filesBelow top (join directory entry.1) := by
  cases read : readDirectory top directory with
  | error fault =>
      rw [filesBelow, read]
      simp [FindsIn, Enters, read]
  | ok entries =>
      rw [filesBelow_of_read sound read, List.mem_flatMap]
      constructor
      · intro inside
        obtain ⟨entry, member, isIn⟩ := inside
        split at isIn
        · next counts =>
          have isPath := List.mem_singleton.mp isIn
          exact .inl ⟨entries, read, entry, member, isPath.symm, isPath ▸ counts⟩
        · split at isIn
          · next entered => exact .inr ⟨entry, ⟨entries, read, member, entered⟩, isIn⟩
          · cases isIn
      · intro found
        rcases found with ⟨others, isRead, entry, member, rfl, counts⟩ |
          ⟨entry, ⟨others, isRead, member, entered⟩, isIn⟩
        · cases read.symm.trans isRead
          exact ⟨entry, member, by simp [counts]⟩
        · cases read.symm.trans isRead
          refine ⟨entry, member, ?_⟩
          simpa [countsAsFile_of_isEntered entered, entered] using isIn

/-- What a search of a directory finds is found in the innermost of the directories that
the search is in at some time. -/
theorem exists_of_mem_filesBelow (sound : top.IsSound) {start : String}
    (found : path ∈ filesBelow top start) :
    ∃ directory others, InSearch top start (directory :: others) ∧ FindsIn top directory path := by
  rcases (mem_filesBelow_iff_or sound).mp found with here | ⟨entry, enters, deeper⟩
  · exact ⟨start, [], .start, here⟩
  · have longer : start.utf8ByteSize < (join start entry.1).utf8ByteSize := by
      obtain ⟨entries, read, member, -⟩ := enters
      have isName := isFileName_of_read sound read member
      exact utf8ByteSize_lt_join isName.isSegment isName.nonempty start
    have short : (join start entry.1).utf8ByteSize < pathLimit := by
      by_contra long
      rw [filesBelow_of_long long] at deeper
      cases deeper
    obtain ⟨directory, others, inSearch, finds⟩ := exists_of_mem_filesBelow sound deeper
    exact ⟨directory, others ++ [start], inSearch.extend enters, finds⟩
termination_by pathLimit - start.utf8ByteSize

/-- A search finds exactly what is found in the innermost of the directories that it is in at
some time. -/
theorem mem_filesBelow_iff_exists (sound : top.IsSound) :
    path ∈ filesBelow top start ↔
      ∃ directory others, InSearch top start (directory :: others) ∧ FindsIn top directory path := by
  constructor
  · exact exists_of_mem_filesBelow sound
  · intro isFound
    obtain ⟨directory, others, inSearch, finds⟩ := isFound
    have here := (mem_filesBelow_iff_or sound).mpr (.inl finds)
    clear finds
    generalize isRow : directory :: others = directories at inSearch
    induction inSearch generalizing directory others with
    | start =>
        cases isRow
        exact here
    | deeper _ enters ih =>
        cases isRow
        exact ih _ _ ((mem_filesBelow_iff_or sound).mpr (.inr ⟨_, enters, here⟩)) rfl

/-! ## Coming back -/

/-- A path leads to a directory at or above the one that an earlier path leads to, and the
path that leads on to the latter can still be opened. -/
def LeadsAbove (top : Node) (path earlier : String) : Prop :=
  ∃ address node below other, nodeAt top path = .ok (address, node) ∧
    nodeAt top earlier = .ok (address ++ below, other) ∧
    (below.foldl join path).utf8ByteSize < pathLimit

theorem realPath_eq_ok_iff {text : String} :
    realPath top path = .ok text ↔
      ∃ address node, nodeAt top path = .ok (address, node) ∧ Address.text address = text := by
  rw [realPath, bind_eq_ok_iff]
  constructor
  · intro runs
    obtain ⟨⟨address, node⟩, leads, isText⟩ := runs
    exact ⟨address, node, leads, Except.ok.inj isText⟩
  · intro leads
    obtain ⟨address, node, leads, rfl⟩ := leads
    exact ⟨_, leads, rfl⟩

/-- All directories that a search is in but the innermost have been read. -/
theorem InSearch.exists_read (inSearch : InSearch top start (directory :: others)) :
    ∀ earlier ∈ others, ∃ address entries,
      nodeAt top earlier = .ok (address, .directory entries) := by
  generalize isRow : directory :: others = directories at inSearch
  induction inSearch generalizing directory others with
  | start =>
      cases isRow
      intro earlier member
      cases member
  | deeper _ enters ih =>
      cases isRow
      intro earlier member
      cases List.mem_cons.mp member with
      | inl here =>
          obtain ⟨entries, read, -⟩ := enters
          obtain ⟨address, leads⟩ := readDirectory_eq_ok_iff_nodeAt.mp read
          exact ⟨address, entries, here ▸ leads⟩
      | inr further => exact ih rfl earlier further

/-- A directory in one that leads above no earlier one leads above none either. -/
theorem not_leadsAbove_child (sound : top.IsSound)
    (leads : nodeAt top directory = .ok (address, .directory entries)) (member : entry ∈ entries)
    (notLink : entry.2.isLink = false)
    (notAbove : ∀ earlier ∈ others, ¬LeadsAbove top directory earlier) :
    ∀ earlier ∈ directory :: others, ¬LeadsAbove top (join directory entry.1) earlier := by
  intro earlier isEarlier above
  obtain ⟨destination, node, below, other, leadsThere, leadsEarlier, short⟩ := above
  have found := (sound.mem_entries_iff (nodeAt_eq_ok_iff_spot.mp leads).2).mp member
  have here := nodeAt_join sound leads found notLink (short_of_nodeAt leadsThere)
  cases here.symm.trans leadsThere
  cases List.mem_cons.mp isEarlier with
  | inl same =>
      rw [same, leads] at leadsEarlier
      have length := congrArg (fun found => found.map fun place => place.1.length) leadsEarlier
      simp [Except.map] at length
  | inr isOther =>
      apply notAbove earlier isOther
      refine ⟨address, _, entry.1 :: below, other, leads, ?_, short⟩
      rw [leadsEarlier, List.append_assoc, List.singleton_append]

/-- The condition under which a search follows links only to directories that it is not in. -/
def FollowsOutward (top : Node) (start : String) : Prop :=
  ∀ directory others entry, InSearch top start (directory :: others) →
    Enters top directory entry → entry.2.isLink = true →
    ∀ earlier ∈ directory :: others, ¬LeadsAbove top (join directory entry.1) earlier

theorem FollowsOutward.not_leadsAbove (sound : top.IsSound) (outward : FollowsOutward top start)
    (inSearch : InSearch top start (directory :: others)) :
    ∀ earlier ∈ others, ¬LeadsAbove top directory earlier := by
  generalize isRow : directory :: others = directories at inSearch
  induction inSearch generalizing directory others with
  | start =>
      cases isRow
      intro earlier member
      cases member
  | @deeper holder outer entry further enters ih =>
      cases isRow
      cases isLink : entry.2.isLink with
      | true => exact outward _ _ _ further enters isLink
      | false =>
          obtain ⟨entries, read, member, -⟩ := enters
          obtain ⟨address, leads⟩ := readDirectory_eq_ok_iff_nodeAt.mp read
          exact not_leadsAbove_child sound leads member isLink (ih rfl)

/-- What leads to the same place leads at or above it. -/
theorem leadsAbove_of_realPath_eq (sound : top.IsSound)
    (leads : nodeAt top directory = .ok (address, node))
    (same : realPath top path = realPath top directory) : LeadsAbove top path directory := by
  have isText := realPath_eq_ok_iff.mpr ⟨address, node, leads, rfl⟩
  rw [← same] at isText
  obtain ⟨other, found, leadsOther, sameText⟩ := realPath_eq_ok_iff.mp isText
  have names := (sound.get? (nodeAt_eq_ok_iff_spot.mp leads).2).2
  have otherNames := (sound.get? (nodeAt_eq_ok_iff_spot.mp leadsOther).2).2
  cases Address.text_injective otherNames names sameText
  refine ⟨address, found, [], node, leadsOther, ?_, short_of_nodeAt leadsOther⟩
  rw [List.append_nil, leads]

/-- A search whose links lead outward is never in one directory twice. -/
theorem FollowsOutward.nodup (sound : top.IsSound) (outward : FollowsOutward top start)
    {directories : List String} (inSearch : InSearch top start directories) :
    (directories.map (realPath top)).Nodup := by
  induction inSearch with
  | start => exact by simp
  | deeper further enters ih =>
      have deeper := further.deeper enters
      refine List.nodup_cons.mpr ⟨?_, ih⟩
      intro member
      obtain ⟨earlier, isEarlier, same⟩ := List.mem_map.mp member
      obtain ⟨address, entries, leads⟩ := deeper.exists_read earlier isEarlier
      exact outward.not_leadsAbove sound deeper earlier isEarlier
        (leadsAbove_of_realPath_eq sound leads same.symm)

theorem utf8ByteSize_le_foldl_join {below : Address} (names : ∀ name ∈ below, IsFileName name)
    (path : String) : path.utf8ByteSize ≤ (below.foldl join path).utf8ByteSize := by
  induction below generalizing path with
  | nil => exact Nat.le_refl _
  | cons name below ih =>
      rw [List.forall_mem_cons] at names
      have longer := utf8ByteSize_lt_join names.1.isSegment names.1.nonempty path
      exact Nat.le_trans (Nat.le_of_lt longer) (ih names.2 _)

/-- From a directory that it is in, a search goes on to each directory below that one whose path
can be opened. -/
theorem InSearch.descend (sound : top.IsSound) {below : Address}
    (inSearch : InSearch top start (directory :: others))
    (leads : nodeAt top directory = .ok (address, node))
    (isThere : contentAt? top (address ++ below) = some .directory)
    (short : (below.foldl join directory).utf8ByteSize < pathLimit) :
    ∃ further inside, InSearch top start (below.foldl join directory :: further) ∧
      (∀ earlier ∈ others, earlier ∈ further) ∧
      nodeAt top (below.foldl join directory) = .ok (address ++ below, inside) := by
  induction below generalizing directory others address node with
  | nil => exact ⟨others, node, inSearch, fun _ member => member, by rw [List.append_nil]; exact leads⟩
  | cons name below ih =>
      rw [List.append_cons] at isThere ⊢
      obtain ⟨inside, deepest⟩ := contentAt?_eq_directory_iff.mp isThere
      have names := (sound.get? deepest).2
      have isChild := isDirectory_of_isPrefix (List.prefix_append _ _) isThere
      have isHere := isDirectory_of_isPrefix (List.prefix_append _ _) isChild
      obtain ⟨children, foundChild⟩ := contentAt?_eq_directory_iff.mp isChild
      obtain ⟨entries, found⟩ := contentAt?_eq_directory_iff.mp isHere
      have isDirectory := (nodeAt_eq_ok_iff_spot.mp leads).2
      rw [found] at isDirectory
      cases isDirectory
      have shortChild : (join directory name).utf8ByteSize < pathLimit := by
        have belowNames : ∀ other ∈ below, IsFileName other := by
          intro other member
          exact names other (List.mem_append_right _ member)
        exact Nat.lt_of_le_of_lt (utf8ByteSize_le_foldl_join belowNames _) short
      have leadsChild := nodeAt_join sound leads foundChild rfl shortChild
      have enters : Enters top directory (name, .directory children) :=
        ⟨entries, readDirectory_eq_ok_iff_nodeAt.mpr ⟨address, leads⟩,
          (sound.mem_entries_iff found).mpr foundChild, rfl⟩
      obtain ⟨further, deeper, isIn, contains, leadsThere⟩ :=
        ih (inSearch.deeper enters) leadsChild isThere short
      exact ⟨further, deeper, isIn, fun earlier member =>
        contains earlier (List.mem_cons_of_mem _ member), leadsThere⟩

/-- A search is never in one directory twice exactly if no link that it follows leads to a
directory that it is in or above one, at least as far as paths can be opened. -/
theorem nodup_realPath_iff (sound : top.IsSound) (start : String) :
    (∀ directories, InSearch top start directories → (directories.map (realPath top)).Nodup) ↔
      FollowsOutward top start := by
  constructor
  · intro distinct directory others entry inSearch enters isLink earlier isEarlier above
    obtain ⟨address, node, below, other, leads, leadsEarlier, short⟩ := above
    have deeper := inSearch.deeper enters
    obtain ⟨place, entries, read⟩ := deeper.exists_read earlier isEarlier
    cases read.symm.trans leadsEarlier
    have isThere := contentAt?_eq_directory_iff.mpr
      ⟨entries, (nodeAt_eq_ok_iff_spot.mp leadsEarlier).2⟩
    -- Behind a link to a directory above, the search comes down to the earlier one again.
    obtain ⟨further, inside, isIn, contains, leadsThere⟩ :=
      deeper.descend sound leads isThere short
    have repeated := List.nodup_cons.mp (distinct _ isIn)
    apply repeated.1
    refine List.mem_map.mpr ⟨earlier, contains earlier isEarlier, ?_⟩
    have here := realPath_eq_ok_iff.mpr ⟨_, _, leadsEarlier, rfl⟩
    have there := realPath_eq_ok_iff.mpr ⟨_, _, leadsThere, rfl⟩
    exact here.trans there.symm
  · intro outward directories inSearch
    exact outward.nodup sound inSearch

/-- Entries of a directory, one of which is a link to a directory beside it. -/
def entriesWithLink : List (String × Node) :=
  [("f", .file .empty), ("m", .link "../b")]

theorem isSound_entriesWithLink : (Node.directory entriesWithLink).IsSound :=
  .directory (by decide +kernel) (by decide +kernel)
    (by simp [entriesWithLink, Node.IsSound.file, Node.IsSound.link])

/-- A directory with a link to one beside it. -/
def linkBeside : Node :=
  .directory [("a", .directory entriesWithLink), ("b", .directory [("g", .file .empty)])]

theorem isSound_linkBeside : linkBeside.IsSound := by
  have other : (Node.directory [("g", .file .empty)]).IsSound :=
    .directory (by decide +kernel) (by decide +kernel) (by simp [Node.IsSound.file])
  exact .directory (by decide +kernel) (by decide +kernel)
    (by simp [isSound_entriesWithLink, other])

/-- A search of the directory with the link is in both of them at most, and comes to the second
one through the link. -/
theorem inSearch_linkBeside {directories : List String}
    (inSearch : InSearch linkBeside "/a" directories) :
    directories = ["/a"] ∨ directories = ["/a/m", "/a"] := by
  induction inSearch with
  | start => exact .inl rfl
  | deeper _ enters ih =>
      obtain ⟨entries, read, member, entered⟩ := enters
      cases ih with
      | inl outer =>
          cases outer
          have isRead : readDirectory linkBeside "/a" = .ok entriesWithLink := rfl
          cases isRead.symm.trans read
          simp only [entriesWithLink, List.mem_cons, List.not_mem_nil, or_false] at member
          rcases member with rfl | rfl
          · cases entered
          · exact .inr rfl
      | inr inner =>
          cases inner
          have isRead : readDirectory linkBeside "/a/m" = .ok [("g", .file .empty)] := rfl
          cases isRead.symm.trans read
          cases List.mem_singleton.mp member
          cases entered

theorem followsOutward_linkBeside : FollowsOutward linkBeside "/a" := by
  intro directory others entry inSearch enters isLink earlier isEarlier above
  obtain ⟨address, node, below, other, leads, leadsEarlier, -⟩ := above
  have deeper := inSearch.deeper enters
  have isRow : join directory entry.1 = "/a/m" ∧ directory :: others = ["/a"] := by
    rcases inSearch_linkBeside deeper with row | row
    · exact absurd (List.cons.inj row).2 (List.cons_ne_nil _ _)
    · exact List.cons.inj row
  rw [isRow.1] at leads
  rw [isRow.2] at isEarlier
  cases List.mem_singleton.mp isEarlier
  have isThere : nodeAt linkBeside "/a/m" = .ok (["b"], .directory [("g", .file .empty)]) := rfl
  have isEarlier : nodeAt linkBeside "/a" = .ok (["a"], .directory entriesWithLink) := rfl
  cases isThere.symm.trans leads
  have places := congrArg Prod.fst (Except.ok.inj (isEarlier.symm.trans leadsEarlier))
  exact absurd (List.cons.inj places).1 (by decide +kernel)

/-- A link to a directory beside the one that it is in. -/
theorem nodup_realPath_iff_beside :
    linkBeside.IsSound ∧ FollowsOutward linkBeside "/a" ∧
      ∀ directories, InSearch linkBeside "/a" directories →
        (directories.map (realPath linkBeside)).Nodup :=
  ⟨isSound_linkBeside, followsOutward_linkBeside,
    (nodup_realPath_iff isSound_linkBeside "/a").mpr followsOutward_linkBeside⟩

/-- Two directories with a link to each other. -/
def linkedBothWays : Node :=
  .directory [("a", .directory entriesWithLink),
    ("b", .directory [("g", .file .empty), ("l", .link "../a")])]

theorem isSound_linkedBothWays : linkedBothWays.IsSound := by
  have other : (Node.directory [("g", .file .empty), ("l", .link "../a")]).IsSound :=
    .directory (by decide +kernel) (by decide +kernel)
      (by simp [Node.IsSound.file, Node.IsSound.link])
  exact .directory (by decide +kernel) (by decide +kernel)
    (by simp [isSound_entriesWithLink, other])

theorem inSearch_linkedBothWays : InSearch linkedBothWays "/a" ["/a/m/l", "/a/m", "/a"] := by
  have isFirst : join "/a" "m" = "/a/m" := by decide +kernel
  have isSecond : join "/a/m" "l" = "/a/m/l" := by decide +kernel
  have first : Enters linkedBothWays "/a" ("m", .link "../b") :=
    ⟨entriesWithLink, rfl, by simp [entriesWithLink], by decide +kernel⟩
  have second : Enters linkedBothWays "/a/m" ("l", .link "../a") :=
    ⟨[("g", .file .empty), ("l", .link "../a")], rfl, by simp, by decide +kernel⟩
  have inFirst := InSearch.start.deeper first
  rw [isFirst] at inFirst
  have inSecond := inFirst.deeper second
  rwa [isSecond] at inSecond

/-- A pattern for all files below a directory selects all that a search of it finds. -/
theorem mem_glob_linkedBothWays (isBelow : Glob.accepts "/a/**" (withSlashes path) = true) :
    path ∈ (host "/").glob ["/a/**"] linkedBothWays ↔ path ∈ filesBelow linkedBothWays "/a" := by
  have selection : (Glob.Selection.ofPatterns ["/a/**"]).map (absolutePattern "/") =
    { included := ["/a/**"], excluded := [] } := by decide +kernel
  have special : Glob.hasSpecial "/a/**" = true := by decide +kernel
  have start : Glob.literalDirectory "/a/**" = "/a" := by decide +kernel
  change path ∈ glob linkedBothWays "/" ["/a/**"] ↔ _
  rw [glob, selection, mem_toList_ofList]
  simp [candidates, special, start, isBelow, Glob.Selection.excludes]

/-- A search comes back through the second link, and finds a file a second time. -/
theorem comesBack_through_links :
    linkedBothWays.IsSound ∧ InSearch linkedBothWays "/a" ["/a/m/l", "/a/m", "/a"] ∧
      realPath linkedBothWays "/a/m/l" = realPath linkedBothWays "/a" ∧
      "/a/f" ∈ (host "/").glob ["/a/**"] linkedBothWays ∧
      "/a/m/l/f" ∈ (host "/").glob ["/a/**"] linkedBothWays ∧
      realPath linkedBothWays "/a/m/l/f" = realPath linkedBothWays "/a/f" := by
  have first : FindsIn linkedBothWays "/a" "/a/f" :=
    ⟨entriesWithLink, rfl, ("f", .file .empty), by simp [entriesWithLink], by decide +kernel⟩
  have second : FindsIn linkedBothWays "/a/m/l" "/a/m/l/f" :=
    ⟨entriesWithLink, rfl, ("f", .file .empty), by simp [entriesWithLink], by decide +kernel⟩
  refine ⟨isSound_linkedBothWays, inSearch_linkedBothWays, by decide +kernel, ?_, ?_,
    by decide +kernel⟩
  · rw [mem_glob_linkedBothWays (by decide +kernel), mem_filesBelow_iff_exists isSound_linkedBothWays]
    exact ⟨"/a", [], .start, first⟩
  · rw [mem_glob_linkedBothWays (by decide +kernel), mem_filesBelow_iff_exists isSound_linkedBothWays]
    exact ⟨"/a/m/l", ["/a/m", "/a"], inSearch_linkedBothWays, second⟩

end ScriptView.Disk
