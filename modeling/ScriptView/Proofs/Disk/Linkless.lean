import ScriptView.Proofs.Disk.Copy

/-!
# Disks without links

Without links a path leads to the place that its segments spell out. A directory that is made is
at the place of its path, and so is a file that is written, and no link comes to be.
-/

namespace ScriptView.Disk

open ScriptView.Action

variable {top made left : Node} {target path name : String} {here there address : Address}
  {goal : Spot} {purpose : Purpose} {links : Nat} {front row above : List String} {node : Node}

/-! ## Places -/

/-- Where segments lead from a directory if there are no links. -/
def descend (here : Address) : List String → Address
  | [] => here
  | segment :: rest =>
      if isVoid segment then descend here rest
      else if segment = ".." then descend here.dropLast rest
      else descend (here ++ [segment]) rest

/-- Where a path leads if there are no links. -/
def place (path : String) : Address :=
  descend [] (segments path)

theorem descend_append (here : Address) (front row : List String) :
    descend here (front ++ row) = descend (descend here front) row := by
  induction front generalizing here with
  | nil => rfl
  | cons segment front ih =>
      rw [List.cons_append, descend, descend]
      split
      · exact ih here
      · split
        · exact ih _
        · exact ih _

theorem descend_voids (areVoid : ∀ segment ∈ row, isVoid segment = true) (here : Address) :
    descend here row = here := by
  induction row with
  | nil => rfl
  | cons segment row ih =>
      rw [List.forall_mem_cons] at areVoid
      rw [descend, if_pos areVoid.1, ih areVoid.2]

theorem descend_slash (here : Address) : descend here [""] = here :=
  descend_voids (by decide) here

theorem descend_cons (leads : LeadsDown name) :
    descend here (name :: row) = descend (here ++ [name]) row := by
  rw [descend, leads.notVoid, if_neg Bool.false_ne_true, if_neg leads.notUp]

theorem descend_name (leads : LeadsDown name) (here : Address) :
    descend here [name] = here ++ [name] := by
  rw [descend_cons leads, descend]

theorem place_join (isName : IsFileName name) (directory : String) :
    place (join directory name) = place directory ++ [name] := by
  obtain ⟨front, same, joined⟩ := exists_segments_join directory isName.isSegment
  rw [place, place, joined, descend_append, descend_name isName.toLeadsDown]
  rcases same with same | same
  · rw [same]
  · rw [same, descend_append [] front [""], descend_slash]

/-- A path leads to its place up to the last segment that is not void. -/
theorem place_pathUpTo (areSegments : ∀ segment ∈ above, IsSegment segment) :
    place (pathUpTo above) = descend [] above.reverse := by
  have whole : descend [] above.reverse = descend [] (above.dropWhile isVoid).reverse := by
    conv_lhs => rw [← List.takeWhile_append_dropWhile (p := isVoid) (l := above)]
    rw [List.reverse_append, descend_append, descend_voids]
    intro segment member
    exact List.mem_takeWhile_imp (List.mem_reverse.mp member)
  rw [whole, place]
  rcases segments_pathUpTo areSegments with ⟨isTop, nothing⟩ | parts
  · rw [isTop, nothing]
    rfl
  · rw [parts]
    rfl

/-- The directories above a name in a directory are at the place of the directory or above the
directory. -/
theorem mem_parents_join (isName : IsFileName name) (absolute : isAbsolute target = true)
    (member : path ∈ parents (join target name)) :
    place path = place target ∨ path ∈ parents target := by
  obtain ⟨front, same, joined⟩ := exists_segments_join target isName.isSegment
  obtain ⟨rest, rfl⟩ := isAbsolute_iff.mp absolute
  have nonempty : segments rest ≠ [] := by
    rw [segments_eq_splitOn]
    simp
  obtain ⟨row, rfl⟩ : ∃ row, front = "" :: row := by
    rw [segments_slash] at same
    rcases same with same | same
    · exact ⟨_, same.symm⟩
    · cases front with
      | nil => exact absurd (List.cons.inj same).2 nonempty
      | cons first row => exact ⟨row, by rw [(List.cons.inj same).1]⟩
  have segmentsOf : ∀ segment ∈ row.reverse, IsSegment segment := by
    intro segment member
    have isIn : segment ∈ segments (join ("/" ++ rest) name) := by
      rw [joined]
      simp [List.mem_reverse.mp member]
    exact isSegment_of_mem_segments isIn
  -- A slash at the end of the target is one more segment, but leads to no other place.
  have isPlace : place ("/" ++ rest) = descend [] row := by
    rcases same with same | same
    · rw [place, same]
      rfl
    · rw [place, same, descend_append, descend_slash]
      rfl
  have areParents : parents ("/" ++ rest) = parentsOf row.reverse := by
    rcases same with same | same
    · rw [parents, same, List.tail_cons]
    · rw [parents, same]
      simp [parentsOf_cons, isVoid]
  rw [parents, joined, List.cons_append, List.tail_cons, List.reverse_append] at member
  rw [List.reverse_singleton, List.singleton_append, parentsOf_cons, isName.notVoid,
    if_neg Bool.false_ne_true] at member
  rcases List.mem_cons.mp member with rfl | further
  · exact .inl (by rw [place_pathUpTo segmentsOf, List.reverse_reverse, isPlace])
  · exact .inr (areParents ▸ further)

/-! ## Trees without links -/

/-- No address has a link. -/
def IsLinkless (top : Node) : Prop :=
  ∀ address target, contentAt? top address ≠ some (.link target)

theorem isLinkless_file (bytes : ByteArray) : IsLinkless (.file bytes) := by
  intro address target isLink
  obtain ⟨node, found, isContent⟩ := Option.map_eq_some_iff.mp isLink
  cases address with
  | nil =>
      cases found
      cases isContent
  | cons name rest =>
      obtain ⟨_, _, isDirectory, -⟩ := Node.exists_entry_of_get? found
      cases isDirectory

theorem isLinkless_directory {entries : List (String × Node)}
    (inside : ∀ entry ∈ entries, IsLinkless entry.2) : IsLinkless (.directory entries) := by
  intro address target isLink
  obtain ⟨node, found, isContent⟩ := Option.map_eq_some_iff.mp isLink
  cases address with
  | nil =>
      cases found
      cases isContent
  | cons name rest =>
      obtain ⟨_, child, same, isChild, below⟩ := Node.exists_entry_of_get? found
      cases same
      obtain ⟨front, behind, rfl, -⟩ := List.lookup_eq_some_iff.mp isChild
      apply inside (name, child) (by simp) rest target
      rw [contentAt?, below, Option.map_some, isContent]

/-- What is followed without links ends where the segments lead, at one of them if the end is
free. -/
theorem address_of_follow (linkless : IsLinkless top)
    (ends : follow top purpose links here row = .ok goal) :
    goal.address = descend here row ∧
      ∀ directory name, goal = .vacant directory name → name ∈ row := by
  have follows := follows_of_follow ends
  clear ends
  induction follows with
  | here => exact ⟨rfl, fun _ _ isVacant => nomatch isVacant⟩
  | void void _ ih =>
      rw [descend, if_pos void]
      exact ⟨ih.1, fun directory name isVacant =>
        List.mem_cons_of_mem _ (ih.2 directory name isVacant)⟩
  | up _ ih =>
      rw [descend, if_neg (by decide), if_pos rfl]
      exact ⟨ih.1, fun directory name isVacant =>
        List.mem_cons_of_mem _ (ih.2 directory name isVacant)⟩
  | @missing _ here segment rest leads _ onlySlashes =>
      have areVoid : ∀ other ∈ rest, isVoid other = true := by
        intro other member
        rw [beq_iff_eq.mp (List.all_eq_true.mp onlySlashes other member)]
        rfl
      rw [descend_cons leads, descend_voids areVoid]
      refine ⟨rfl, ?_⟩
      intro directory name isVacant
      cases isVacant
      exact List.mem_cons_self
  | file leads _ => exact ⟨(descend_name leads _).symm, fun _ _ isVacant => nomatch isVacant⟩
  | down leads _ _ ih =>
      rw [descend_cons leads]
      exact ⟨ih.1, fun directory name isVacant =>
        List.mem_cons_of_mem _ (ih.2 directory name isVacant)⟩
  | itself _ isLink | link _ isLink => exact absurd isLink (linkless _ _)

theorem place_of_spot (linkless : IsLinkless top) (isSpot : spot top purpose path = .ok goal) :
    goal.address = place path :=
  (address_of_follow linkless (spot_eq_ok_iff.mp isSpot).2.2).1

theorem place_of_nodeAt (linkless : IsLinkless top)
    (leads : nodeAt top path = .ok (address, node)) : place path = address :=
  (place_of_spot linkless (nodeAt_eq_ok_iff_spot.mp leads).1).symm

theorem place_of_splitLast (linkless : IsLinkless top) {directory : Address}
    (isName : splitLast top path = .ok (directory, .name name)) :
    place path = directory ++ [name] ∧ name ∈ segments path := by
  obtain ⟨-, front, slashes, remaining, isRow, onlySlashes, notVoid, notUp, passes⟩ :=
    exists_last_of_splitLast isName
  have ends := passes.follow_use []
  rw [follow_nil] at ends
  have isDirectory := (address_of_follow linkless ends).1
  have areVoid : ∀ segment ∈ slashes, isVoid segment = true := by
    intro segment member
    rw [beq_iff_eq.mp (List.all_eq_true.mp onlySlashes segment member)]
    rfl
  rw [List.append_nil] at isDirectory
  constructor
  · rw [place, isRow, descend_append, ← isDirectory, descend, notVoid, if_neg Bool.false_ne_true,
      if_neg notUp, descend_voids areVoid]
    rfl
  · rw [isRow]
    exact List.mem_append_right _ List.mem_cons_self

/-- What a path ends in can be the name of an entry. -/
theorem isFileName_of_mem_segments (isChecked : checked path = .ok path) (leads : LeadsDown name)
    (member : name ∈ segments path) : IsFileName name :=
  ⟨leads, isSegment_of_mem_segments member,
    noNul_of_mem_segments (checked_eq_ok_iff.mp isChecked).2.1 member⟩

theorem names_concat (sound : top.IsSound) {directory : Address}
    (isDirectory : contentAt? top directory = some .directory) (isName : IsFileName name) :
    ∀ other ∈ directory ++ [name], IsFileName other := by
  intro other member
  obtain ⟨entries, found⟩ := contentAt?_eq_directory_iff.mp isDirectory
  cases List.mem_append.mp member with
  | inl inDirectory => exact (sound.get? found).2 other inDirectory
  | inr isLast => exact List.mem_singleton.mp isLast ▸ isName

/-- A path can only lead to file names. -/
theorem names_of_spot (sound : top.IsSound) (linkless : IsLinkless top)
    (isTop : contentAt? top [] = some .directory) (isSpot : spot top purpose path = .ok goal) :
    ∀ name ∈ goal.address, IsFileName name := by
  have fits := fits_of_spot isTop isSpot
  obtain ⟨noNul, short, ends⟩ := spot_eq_ok_iff.mp isSpot
  cases goal with
  | taken address =>
      rw [Spot.Fits, Ne, contentAt?_eq_none_iff] at fits
      obtain ⟨node, found⟩ := Option.ne_none_iff_exists'.mp fits
      exact (sound.get? found).2
  | vacant directory name =>
      obtain ⟨isDirectory, -, leads⟩ := fits
      have member := (address_of_follow linkless ends).2 directory name rfl
      have isChecked := checked_eq_ok_iff.mpr ⟨rfl, noNul, short⟩
      exact names_concat sound isDirectory (isFileName_of_mem_segments isChecked leads member)

/-! ## Changes -/

/-- What a disk without links is. -/
structure IsLinklessDisk (top : Node) : Prop where
  sound : top.IsSound
  linkless : IsLinkless top
  isTop : contentAt? top [] = some .directory

namespace IsLinklessDisk

/-- A change in one place that makes no link. -/
theorem change {content : Content} (disk : IsLinklessDisk top) (sound : left.IsSound)
    (notTop : address ≠ []) (notLink : ∀ target, content ≠ .link target)
    (contents : ∀ other, contentAt? left other =
      if other = address then some content else contentAt? top other) : IsLinklessDisk left where
  sound := sound
  linkless := by
    intro other target isLink
    rw [contents] at isLink
    split at isLink
    · exact notLink target (Option.some.inj isLink)
    · exact disk.linkless other target isLink
  isTop := by rw [contents, if_neg notTop.symm, disk.isTop]

/-- A directory is made at the place of its path, where nothing was. -/
theorem makeDirectory (disk : IsLinklessDisk top) (makes : makeDirectory path top = .ok () made) :
    IsLinklessDisk made ∧ contentAt? top (place path) = none ∧
      ∀ other, contentAt? made other =
        if other = place path then some .directory else contentAt? top other := by
  obtain ⟨directory, name, isName, isDirectory, missing, contents⟩ := exists_made disk.isTop makes
  obtain ⟨isPlace, isIn⟩ := place_of_splitLast disk.linkless isName
  have sound : made.IsSound := by
    obtain ⟨_, _, isSplit, short, -, rfl⟩ := makeDirectory_eq_ok_iff.mp makes
    cases isName.symm.trans isSplit
    obtain ⟨isChecked, -, -, -, -, -, notVoid, notUp, -⟩ := exists_last_of_splitLast isName
    have isFileName := isFileName_of_mem_segments isChecked ⟨notVoid, notUp, short⟩ isIn
    exact disk.sound.put (names_concat disk.sound isDirectory isFileName)
      (.directory (by simp) (by simp) (by simp))
  rw [isPlace]
  exact ⟨disk.change sound (by simp) (by simp) contents, missing, contents⟩

/-- A file is written at the place of its path, where no directory is. -/
theorem transfer (disk : IsLinklessDisk top) (isPlace : writable top target = .ok there)
    (address : Address) :
    IsLinklessDisk (transfer address there top) ∧ contentAt? top (place target) ≠ some .directory ∧
      ∃ bytes, ∀ other, contentAt? (Disk.transfer address there top) other =
        if other = place target then some (.file bytes) else contentAt? top other := by
  obtain ⟨directory, name, isConcat, -, free⟩ := exists_of_writable disk.isTop isPlace
  obtain ⟨bytes, -, contents⟩ := exists_contentAt?_transfer disk.isTop isPlace address
  obtain ⟨goal, isSpot, isAddress, -⟩ := writable_eq_ok_iff.mp isPlace
  have isThere : place target = there := isAddress ▸ (place_of_spot disk.linkless isSpot).symm
  have names := names_of_spot disk.sound disk.linkless disk.isTop isSpot
  have sound := isSound_transfer disk.sound (isAddress ▸ names) address
  rw [isThere]
  exact ⟨disk.change sound (by simp [← isConcat]) (by simp) contents, free, bytes, contents⟩

end IsLinklessDisk

end ScriptView.Disk
