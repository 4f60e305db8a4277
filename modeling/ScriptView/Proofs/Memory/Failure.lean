import ScriptView.Proofs.Memory.Transfer

/-!
# What failing changes leave

A change that fails leaves the tree as it was, unless it copies a directory, alone
or as the first part of a move. Such a copy makes directories and writes files one
after the other, so that what it has done before the first obstacle stays. The
tree is then the one before exactly if all of that was there already.
-/

namespace ScriptView

namespace Location

/-- A place below a source and its directory move together. -/
theorem dropLast_rebase {location source : Location} (target : Location)
    (isFrom : source <+: location) (differs : location ≠ source) :
    (location.rebase source target).dropLast = rebase location.dropLast source target := by
  rcases isFrom with ⟨rest, rfl⟩
  have nonempty : rest ≠ [] := by
    rintro rfl
    exact differs (List.append_nil source)
  rw [rebase_append, List.dropLast_append_of_ne_nil nonempty,
    List.dropLast_append_of_ne_nil nonempty, rebase_append]

/-- Places at or below a source stay above each other when they move. -/
theorem prefix_of_rebase_prefix {first second source target : Location} (firstFrom : source <+: first)
    (secondFrom : source <+: second)
    (above : first.rebase source target <+: second.rebase source target) : first <+: second := by
  rcases firstFrom with ⟨firstRest, rfl⟩
  rcases secondFrom with ⟨secondRest, rfl⟩
  rw [rebase_append, rebase_append, List.prefix_append_right_inj] at above
  exact (List.prefix_append_right_inj source).mpr above

end Location

namespace Memory

open ScriptView.Action (exists_of_bind_eq_ok fails_or_of_bind_eq_error exists_of_forM_eq_error)

variable {source target : Location} {tree after left : Tree} {error : Error}

/-- A single change that fails leaves the tree as it was. -/
theorem eq_and_eq_of_change {step : Tree → Except Error Tree}
    (fails : change step tree = .error error left) : left = tree ∧ step tree = .error error := by
  rw [change] at fails
  cases steps : step tree with
  | ok =>
      rw [steps] at fails
      cases fails
  | error =>
      rw [steps] at fails
      cases fails
      exact ⟨rfl, rfl⟩

namespace Tree

/-- A file at a place or above it is in the way of a directory there. -/
def Bars (tree : Tree) (place : Location) : Prop :=
  ∃ above, above <+: place ∧ tree.isFile above = true

/-- What a copy of a directory comes to before the first obstacle is there already.
Directories come first and then files, both in their order. -/
structure InPlace (source target : Location) (tree : Tree) : Prop where
  directories : ∀ directory, tree.isDirectory directory = true →
    directory.isAtOrBelow source = true →
    (∀ earlier, tree.isDirectory earlier = true → earlier.isAtOrBelow source = true →
      Location.order earlier directory ≠ .gt → ¬tree.Bars (earlier.rebase source target)) →
    tree.isDirectory (directory.rebase source target) = true
  files : (∀ directory, tree.isDirectory directory = true → directory.isAtOrBelow source = true →
      ¬tree.Bars (directory.rebase source target)) →
    ∀ file, tree.isFile file = true → file.isBelow source = true →
    (∀ earlier, tree.isFile earlier = true → earlier.isBelow source = true →
      Location.order earlier file ≠ .gt →
      ¬tree.isDirectory (earlier.rebase source target) = true) →
    tree.text? (file.rebase source target) = tree.text? file

theorem mem_directoriesFrom {directory top : Location} :
    directory ∈ tree.directoriesFrom top ↔
      tree.isDirectory directory = true ∧ directory.isAtOrBelow top = true := by
  rw [directoriesFrom, List.mem_filter, Std.ExtTreeSet.mem_toList, isDirectory,
    Std.ExtTreeSet.contains_iff_mem]

theorem ordered_directoriesFrom (tree : Tree) (top : Location) :
    (tree.directoriesFrom top).Pairwise fun first second =>
      Location.order first second = .lt :=
  Std.ExtTreeSet.ordered_toList.filter _

/-- A directory cannot be made only if a file is in the way. -/
theorem bars_of_addDirectories {place : Location}
    (fails : tree.addDirectories place = .error error) : tree.Bars place := by
  rw [addDirectories] at fails
  cases found : tree.missing place.upward with
  | ok =>
      rw [found] at fails
      cases fails
  | error =>
      rcases exists_isFile_of_missing found with ⟨above, member, file, -⟩
      exact ⟨above, Location.mem_upward.mp member, file⟩

theorem bars_congr {first second : Tree} (sameText : ∀ place, first.text? place = second.text? place)
    (place : Location) : first.Bars place ↔ second.Bars place := by
  have same : ∀ other, first.isFile other = second.isFile other := fun other =>
    isFile_congr (sameText other)
  simp only [Bars, same]

end Tree

/-! ## Rows up to the first obstacle -/

/-- In a row that is in order, what holds of all places up to which there is no
obstacle holds of the places before the first one. -/
theorem forall_iff_of_first {row earlier later : List Location} {stop : Location}
    {obstacle : Location → Prop}
    (ordered : row.Pairwise fun first second => Location.order first second = .lt)
    (split : row = earlier ++ stop :: later) (free : ∀ place ∈ earlier, ¬obstacle place)
    (stops : obstacle stop) (holds : Location → Prop) :
    (∀ place ∈ row, (∀ other ∈ row, Location.order other place ≠ .gt → ¬obstacle other) →
      holds place) ↔ ∀ place ∈ earlier, holds place := by
  subst split
  rcases List.pairwise_append.mp ordered with ⟨_, behind, across⟩
  constructor
  · intro all place member
    apply all place (List.mem_append_left _ member)
    intro other otherMember upTo
    rcases List.mem_append.mp otherMember with before | notBefore
    · exact free other before
    · exact absurd (Std.OrientedCmp.gt_of_lt (across place member other notBefore)) upTo
  · intro all place member upTo
    rcases List.mem_append.mp member with before | notBefore
    · exact all place before
    · have reached : Location.order stop place ≠ .gt := by
        rcases List.mem_cons.mp notBefore with rfl | later
        · rw [Location.order_self]
          simp
        · rw [List.rel_of_pairwise_cons behind later]
          simp
      exact absurd stops (upTo stop (List.mem_append_right _ List.mem_cons_self) reached)

/-! ## Rows of directories -/

section Directories

variable {row : List Location} {place : Location → Location}

theorem isDirectory_of_directories (closed : tree.Closed)
    (done : (row.forM fun location => change (·.addDirectories (place location))) tree =
      .ok () after) (other : Location) :
    after.isDirectory other = true ↔
      tree.isDirectory other = true ∨ ∃ location ∈ row, other <+: place location := by
  induction row generalizing tree with
  | nil =>
      cases done
      simp
  | cons location rest ih =>
      rcases exists_of_bind_eq_ok done with ⟨⟨⟩, between, first, others⟩
      have added := eq_ok_of_change first
      rw [ih (closed.addDirectories added) others, closed.isDirectory_made added]
      simp [or_assoc]

/-- Directories that are made are not barred. -/
theorem not_bars_of_directories (closed : tree.Closed)
    (done : (row.forM fun location => change (·.addDirectories (place location))) tree =
      .ok () after) : ∀ location ∈ row, ¬tree.Bars (place location) := by
  induction row generalizing tree with
  | nil =>
      intro location member
      contradiction
  | cons location rest ih =>
      rcases exists_of_bind_eq_ok done with ⟨⟨⟩, between, first, others⟩
      have added := eq_ok_of_change first
      intro other member
      rcases List.mem_cons.mp member with rfl | later
      · rintro ⟨above, isAbove, file⟩
        rw [closed.isFile_made added isAbove] at file
        contradiction
      · rw [← Tree.bars_congr (Tree.text?_addDirectories added)]
        exact ih (closed.addDirectories added) others other later

/-- Making directories changes nothing exactly if all of them are there. -/
theorem eq_iff_of_directories (closed : tree.Closed)
    (done : (row.forM fun location => change (·.addDirectories (place location))) tree =
      .ok () after) :
    after = tree ↔ ∀ location ∈ row, tree.isDirectory (place location) = true := by
  have made := isDirectory_of_directories closed done
  constructor
  · intro same location member
    rw [← same]
    exact (made _).mpr (.inr ⟨location, member, List.prefix_refl _⟩)
  · intro all
    apply Tree.ext_view
    · exact text?_of_directories done
    · intro other
      rw [Bool.eq_iff_iff, made]
      constructor
      · rintro (old | ⟨location, member, above⟩)
        · exact old
        · exact closed.isDirectory_of_prefix above (all location member)
      · exact .inl

end Directories

/-! ## Rows of files -/

section Files

variable {file : Location}

/-- A file is copied into a directory that is there where no directory is. -/
theorem isDirectory_copyFile (isFile : tree.isFile file = true)
    (housed : tree.isDirectory (file.rebase source target).dropLast = true)
    (copied : copyFile source target file tree = .ok () after) :
    tree.isDirectory (file.rebase source target) = false ∧
      ∀ place, after.isDirectory place = tree.isDirectory place := by
  have done := eq_ok_of_change copied
  cases found : tree.text? file with
  | none =>
      rw [Tree.isFile_eq_isSome, found] at isFile
      contradiction
  | some text =>
      rw [found] at done
      rcases Tree.exists_made_of_addFile done with ⟨free, made, directories, same⟩
      refine ⟨free, ?_⟩
      intro place
      rw [same, Tree.isDirectory_addDirectories (Tree.missing_of_isDirectory housed) directories]
      simp

/-- It is not copied only if a directory is there. -/
theorem isDirectory_of_copyFile_fails
    (housed : tree.isDirectory (file.rebase source target).dropLast = true)
    (fails : copyFile source target file tree = .error error left) :
    tree.isDirectory (file.rebase source target) = true := by
  have stops := (eq_and_eq_of_change fails).2
  cases found : tree.text? file with
  | none =>
      rw [found] at stops
      cases stops
  | some text =>
      rw [found] at stops
      dsimp only at stops
      rw [Tree.addFile, Tree.addDirectories, Tree.missing_of_isDirectory housed] at stops
      split at stops
      · assumption
      · cases stops

/-- A file that is written over one with the same text changes nothing. -/
theorem eq_of_copyFile (isFile : tree.isFile file = true)
    (housed : tree.isDirectory (file.rebase source target).dropLast = true)
    (copied : copyFile source target file tree = .ok () after)
    (same : tree.text? (file.rebase source target) = tree.text? file) : after = tree := by
  apply Tree.ext_view
  · intro place
    rw [text?_copyFile isFile copied]
    split
    · next here => rw [here, same]
    · rfl
  · exact (isDirectory_copyFile isFile housed copied).2

/-- Files to copy into directories that are there. -/
structure Housed (tree : Tree) (source target : Location) (row : List Location) : Prop
    extends Copied tree source row where
  isThere : ∀ file ∈ row, tree.isDirectory (file.rebase source target).dropLast = true

namespace Housed

variable {row rest : List Location}

theorem tail (housed : Housed tree source target (file :: rest)) {between : Tree}
    (first : copyFile source target file tree = .ok () between) :
    Housed between source target rest where
  toCopied := housed.toCopied.tail first
  isThere other member := by
    rw [(isDirectory_copyFile (housed.isFile file List.mem_cons_self)
      (housed.isThere file List.mem_cons_self) first).2]
    exact housed.isThere other (List.mem_cons_of_mem _ member)

theorem of_append {earlier later : List Location}
    (housed : Housed tree source target (earlier ++ later)) :
    Housed tree source target earlier where
  isFile file member := housed.isFile file (List.mem_append_left _ member)
  isFrom file member := housed.isFrom file (List.mem_append_left _ member)
  nodup := (List.nodup_append.mp housed.nodup).1
  isThere file member := housed.isThere file (List.mem_append_left _ member)

theorem isDirectory_eq (housed : Housed tree source target row)
    (done : row.forM (copyFile source target) tree = .ok () after) (place : Location) :
    after.isDirectory place = tree.isDirectory place := by
  induction row generalizing tree with
  | nil =>
      cases done
      rfl
  | cons file rest ih =>
      rcases exists_of_bind_eq_ok done with ⟨⟨⟩, between, first, others⟩
      rw [ih (housed.tail first) others, (isDirectory_copyFile
        (housed.isFile file List.mem_cons_self) (housed.isThere file List.mem_cons_self) first).2]

/-- Where files are copied to there are no directories. -/
theorem isDirectory_rebase (housed : Housed tree source target row)
    (done : row.forM (copyFile source target) tree = .ok () after) :
    ∀ file ∈ row, ¬tree.isDirectory (file.rebase source target) = true := by
  induction row generalizing tree with
  | nil =>
      intro file member
      contradiction
  | cons file rest ih =>
      rcases exists_of_bind_eq_ok done with ⟨⟨⟩, between, first, others⟩
      have step := isDirectory_copyFile (housed.isFile file List.mem_cons_self)
        (housed.isThere file List.mem_cons_self) first
      intro other member
      rcases List.mem_cons.mp member with rfl | later
      · rw [step.1]
        exact Bool.false_ne_true
      · rw [← step.2]
        exact ih (housed.tail first) others other later

/-- Copying files changes nothing exactly if all of them are there with their
texts. -/
theorem eq_iff (housed : Housed tree source target row)
    (done : row.forM (copyFile source target) tree = .ok () after) :
    after = tree ↔ ∀ file ∈ row, tree.text? (file.rebase source target) = tree.text? file := by
  induction row generalizing tree with
  | nil =>
      cases done
      simp
  | cons file rest ih =>
      rcases exists_of_bind_eq_ok done with ⟨⟨⟩, between, first, others⟩
      have unchanged := eq_of_copyFile (housed.isFile file List.mem_cons_self)
        (housed.isThere file List.mem_cons_self) first
      constructor
      · intro same
        -- No later file is copied to the place of the first one.
        have sameText := housed.toCopied.text?_rebase_head done
        rw [same] at sameText
        have between_eq := unchanged sameText
        subst between_eq
        have further := (ih (housed.tail first) others).mp same
        intro other member
        rcases List.mem_cons.mp member with rfl | later
        · exact sameText
        · exact further other later
      · intro all
        have between_eq := unchanged (all file List.mem_cons_self)
        subst between_eq
        exact (ih (housed.tail first) others).mpr fun other member =>
          all other (List.mem_cons_of_mem _ member)

end Housed

end Files

/-! ## Copies and moves -/

section Copy

variable {between : Tree}

/-- Once its directories are made, the files of a copy have where to go. -/
theorem housed_of_directories (closed : tree.Closed)
    (done : ((tree.directoriesFrom source).forM fun location =>
      change (·.addDirectories (location.rebase source target))) tree = .ok () between) :
    Housed between source target (tree.filesBelow source) where
  isFile file member := by
    rw [Tree.isFile_congr (text?_of_directories done file)]
    exact (Tree.mem_filesBelow.mp member).1
  isFrom file member := (Location.isBelow_iff.mp (Tree.mem_filesBelow.mp member).2).1
  nodup := nodup_of_ordered (tree.ordered_filesBelow source)
  isThere file member := by
    rcases Tree.mem_filesBelow.mp member with ⟨isFile, isBelow⟩
    rcases Location.isBelow_iff.mp isBelow with ⟨isFrom, differs⟩
    have above : source <+: file.dropLast := by
      rcases isFrom with ⟨rest, rfl⟩
      have nonempty : rest ≠ [] := by
        rintro rfl
        exact differs (List.append_nil source)
      rw [List.dropLast_append_of_ne_nil nonempty]
      exact List.prefix_append _ _
    rw [Location.dropLast_rebase target isFrom differs, isDirectory_of_directories closed done]
    refine .inr ⟨file.dropLast, Tree.mem_directoriesFrom.mpr ⟨closed.aboveFile file isFile, ?_⟩,
      List.prefix_refl _⟩
    exact Location.isAtOrBelow_iff.mpr above

/-- The directories that a copy makes are not in the way of its files. -/
theorem isDirectory_rebase_of_directories (closed : tree.Closed)
    (done : ((tree.directoriesFrom source).forM fun location =>
      change (·.addDirectories (location.rebase source target))) tree = .ok () between)
    {file : Location} (member : file ∈ tree.filesBelow source) :
    between.isDirectory (file.rebase source target) = true ↔
      tree.isDirectory (file.rebase source target) = true := by
  rw [isDirectory_of_directories closed done]
  constructor
  · rintro (old | ⟨directory, isFrom, above⟩)
    · exact old
    · rcases Tree.mem_filesBelow.mp member with ⟨isFile, isBelow⟩
      rcases Tree.mem_directoriesFrom.mp isFrom with ⟨isDirectory, atOrBelow⟩
      have aboveToo := Location.prefix_of_rebase_prefix (Location.isBelow_iff.mp isBelow).1
        (Location.isAtOrBelow_iff.mp atOrBelow) above
      rw [closed.isFile_of_prefix aboveToo isDirectory] at isFile
      contradiction
  · exact .inl

/-- A copy that stops at a directory. -/
theorem eq_iff_inPlace_of_directories_fail (closed : tree.Closed)
    (fails : ((tree.directoriesFrom source).forM fun location =>
      change (·.addDirectories (location.rebase source target))) tree = .error error left) :
    left = tree ↔ tree.InPlace source target := by
  rcases exists_of_forM_eq_error fails with ⟨earlier, stop, later, between, split, done, stops⟩
  rcases eq_and_eq_of_change stops with ⟨rfl, failed⟩
  have barred : tree.Bars (stop.rebase source target) :=
    (Tree.bars_congr (text?_of_directories done) _).mp (Tree.bars_of_addDirectories failed)
  have reached := forall_iff_of_first (tree.ordered_directoriesFrom source) split
    (not_bars_of_directories closed done) barred
    fun place => tree.isDirectory (place.rebase source target) = true
  rw [eq_iff_of_directories closed done, ← reached]
  simp only [Tree.mem_directoriesFrom, and_imp]
  have stopFrom : stop ∈ tree.directoriesFrom source := by simp [split]
  rcases Tree.mem_directoriesFrom.mp stopFrom with ⟨isDirectory, isFrom⟩
  constructor
  · intro all
    exact ⟨all, fun free => absurd barred (free stop isDirectory isFrom)⟩
  · intro inPlace
    exact inPlace.directories

/-- A copy of files that stops at one has come to the first of them in whose place
the tree has a directory. -/
theorem isDirectory_of_first_fails (closed : tree.Closed)
    (done : ((tree.directoriesFrom source).forM fun location =>
      change (·.addDirectories (location.rebase source target))) tree = .ok () between)
    {earlier later : List Location} {stop : Location} {last : Tree}
    (split : tree.filesBelow source = earlier ++ stop :: later)
    (files : earlier.forM (copyFile source target) between = .ok () last)
    (stops : copyFile source target stop last = .error error left) :
    tree.isDirectory (stop.rebase source target) = true ∧
      ∀ file ∈ earlier, ¬tree.isDirectory (file.rebase source target) = true := by
  have all := housed_of_directories closed done
  rw [split] at all
  have housed := all.of_append
  have same : ∀ file ∈ earlier ++ stop :: later,
      (between.isDirectory (file.rebase source target) = true ↔
        tree.isDirectory (file.rebase source target) = true) := by
    intro file member
    rw [← split] at member
    exact isDirectory_rebase_of_directories closed done member
  constructor
  · rw [← same stop (by simp), ← housed.isDirectory_eq files]
    apply isDirectory_of_copyFile_fails _ stops
    rw [housed.isDirectory_eq files]
    exact all.isThere stop (by simp)
  · intro file member
    rw [← same file (by simp [member])]
    exact housed.isDirectory_rebase files file member

/-- A copy that stops at a file. -/
theorem eq_iff_inPlace_of_files_fail (closed : tree.Closed)
    (done : ((tree.directoriesFrom source).forM fun location =>
      change (·.addDirectories (location.rebase source target))) tree = .ok () between)
    (fails : (tree.filesBelow source).forM (copyFile source target) between =
      .error error left) : left = tree ↔ tree.InPlace source target := by
  rcases exists_of_forM_eq_error fails with ⟨earlier, stop, later, last, split, files, stops⟩
  rcases isDirectory_of_first_fails closed done split files stops with ⟨barred, clear⟩
  rcases eq_and_eq_of_change stops with ⟨rfl, -⟩
  have all := housed_of_directories closed done
  rw [split] at all
  have housed := all.of_append
  have sameText := text?_of_directories done
  have reached := forall_iff_of_first (tree.ordered_filesBelow source) split clear barred
    fun file => tree.text? (file.rebase source target) = tree.text? file
  have inTwo : left = tree ↔ between = tree ∧ left = between := by
    constructor
    · rintro rfl
      -- Files do not make directories, so that the first part made none.
      have nothing : between = left := by
        apply Tree.ext_view sameText
        intro place
        rw [housed.isDirectory_eq files]
      exact ⟨nothing, nothing.symm⟩
    · rintro ⟨first, second⟩
      rw [second, first]
  have free : ∀ directory, tree.isDirectory directory = true →
      directory.isAtOrBelow source = true → ¬tree.Bars (directory.rebase source target) := by
    intro directory isDirectory isFrom
    exact not_bars_of_directories closed done directory
      (Tree.mem_directoriesFrom.mpr ⟨isDirectory, isFrom⟩)
  rw [inTwo, eq_iff_of_directories closed done, housed.eq_iff files]
  simp only [sameText, ← reached, Tree.mem_directoriesFrom, Tree.mem_filesBelow, and_imp]
  constructor
  · rintro ⟨directories, files⟩
    exact ⟨fun directory isDirectory isFrom _ => directories directory isDirectory isFrom,
      fun _ => files⟩
  · intro inPlace
    refine ⟨?_, inPlace.files free⟩
    intro directory isDirectory isFrom
    exact inPlace.directories directory isDirectory isFrom fun earlier isDirectory isFrom _ =>
      free earlier isDirectory isFrom

/-- A copy that fails leaves the tree as it was, unless it has got on with a
directory. -/
theorem eq_iff_of_copy_fails (closed : tree.Closed)
    (fails : copy source target tree = .error error left) :
    left = tree ↔ (tree.isDirectory source = true → target.isBelow source = false →
      tree.InPlace source target) := by
  rw [copy] at fails
  rcases fails_or_of_bind_eq_error fails with nothing | ⟨now, same, got, copying⟩
  · cases nothing
  cases got
  split at copying
  · next into =>
    cases copying
    simp [into]
  · next notInto =>
    split at copying
    · next isFile =>
      simp [closed.apart source isFile, (eq_and_eq_of_change copying).1]
    · split at copying
      · next isDirectory =>
        simp only [isDirectory, notInto, forall_const]
        rcases fails_or_of_bind_eq_error copying with stops | ⟨⟨⟩, between, directories, stops⟩
        · exact eq_iff_inPlace_of_directories_fail closed stops
        · exact eq_iff_inPlace_of_files_fail closed directories stops
      · next notDirectory =>
        cases copying
        simp [notDirectory]

/-- What a copy was made of is still there. -/
theorem isThere_of_copy (closed : tree.Closed) (done : copy source target tree = .ok () after) :
    after.isFile source = true ∨ after.isDirectory source = true := by
  have isThere : tree.isFile source = true ∨ tree.isDirectory source = true := by
    rw [copy] at done
    rcases exists_of_bind_eq_ok done with ⟨now, same, got, copied⟩
    cases got
    split at copied
    · cases copied
    · split at copied
      · next isFile => exact .inl isFile
      · split at copied
        · next isDirectory => exact .inr isDirectory
        · cases copied
  have keeps : Action.Keeps
      (fun tree => tree.Closed ∧ (tree.isFile source = true ∨ tree.isDirectory source = true))
      (copy source target) := by
    apply keeps_copy_of
    · rintro before written location text ⟨closed, isThere⟩ added
      refine ⟨closed.addFile added, ?_⟩
      rcases Tree.exists_made_of_addFile added with ⟨_, made, directories, same⟩
      rw [Tree.isFile_addFile added, same, closed.isDirectory_made directories]
      exact isThere.imp .inr .inl
    · rintro before made location ⟨closed, isThere⟩ added
      refine ⟨closed.addDirectories added, ?_⟩
      rw [Tree.isFile_congr (Tree.text?_addDirectories added source),
        closed.isDirectory_made added]
      exact isThere.imp_right .inl
  exact (keeps.of_ok ⟨closed, isThere⟩ done).2

/-- A move that fails does so in its copy. -/
theorem copy_fails_of_move_fails (closed : tree.Closed)
    (fails : move source target tree = .error error left) :
    copy source target tree = .error error left := by
  rcases fails_or_of_bind_eq_error fails with here | ⟨⟨⟩, between, copied, removes⟩
  · exact here
  · have stops := (eq_and_eq_of_change removes).2
    rw [Tree.remove] at stops
    rcases isThere_of_copy closed copied with isFile | isDirectory
    · rw [if_pos isFile] at stops
      cases stops
    · split at stops
      · cases stops
      · cases stops

end Copy

/-- Every change but a copy or a move is one step. -/
theorem exists_step_of_run (current : Location) (change : Change)
    (single : ∀ source target, change ≠ .copy source target ∧ change ≠ .move source target) :
    ∃ step, change.run (host current) = Memory.change step := by
  cases change with
  | write | makeDirectory | delete => exact ⟨_, rfl⟩
  | copy source target => exact absurd rfl (single source target).1
  | move source target => exact absurd rfl (single source target).2

theorem eq_of_run_fails {current : Location} {change : Change}
    (fails : change.run (host current) tree = .error error left)
    (single : ∀ source target, change ≠ .copy source target ∧ change ≠ .move source target) :
    left = tree := by
  rcases exists_step_of_run current change single with ⟨step, isStep⟩
  rw [isStep] at fails
  exact (eq_and_eq_of_change fails).1

/-- When a change that fails leaves the tree as it was: always, unless it copies a
directory and what it comes to before the first obstacle is not there already. -/
theorem eq_iff_of_run_fails {store : Store} (reachable : Reachable store) {change : Change}
    (fails : change.run (host store.current) store.tree = .error error left) :
    left = store.tree ↔ ∀ source target, change = .copy source target ∨ change = .move source target →
      store.tree.isDirectory (store.current.resolve source) = true →
      (store.current.resolve target).isBelow (store.current.resolve source) = false →
      store.tree.InPlace (store.current.resolve source) (store.current.resolve target) := by
  have closed := reachable.closed
  cases change with
  | write | makeDirectory | delete => simp [eq_of_run_fails fails (by simp)]
  | copy source target =>
      have copies : copy (store.current.resolve source) (store.current.resolve target) store.tree =
          .error error left := by
        rw [Change.run, host] at fails
        dsimp only at fails
        split at fails
        · cases fails
        · exact fails
      rw [eq_iff_of_copy_fails closed copies]
      simp
  | move source target =>
      have moves : move (store.current.resolve source) (store.current.resolve target) store.tree =
          .error error left := by
        rw [Change.run, host] at fails
        dsimp only at fails
        split at fails
        · cases fails
        · exact fails
      rw [eq_iff_of_copy_fails closed (copy_fails_of_move_fails closed moves)]
      simp

/-- A move of a directory that stops at once, at a file in the place of its target. -/
theorem eq_iff_of_run_fails_atOnce :
    ∃ store left, Reachable store ∧
      (Change.move "/a" "b/c").run (host store.current) store.tree = .error (.notAFile "/b") left ∧
      (left = store.tree ↔ ∀ source target,
        Change.move "/a" "b/c" = .copy source target ∨ Change.move "/a" "b/c" = .move source target →
        store.tree.isDirectory (store.current.resolve source) = true →
        (store.current.resolve target).isBelow (store.current.resolve source) = false →
        store.tree.InPlace (store.current.resolve source) (store.current.resolve target)) := by
  have start : ∃ store, Reachable store ∧
      (((Change.move "/a" "b/c").run (host store.current)).failure? store.tree).map
        (Prod.map id Tree.filePaths) = some (.notAFile "/b", ["/a/x", "/b"]) := by
    have reachable : Reachable (((Store.mk .root .empty).after (.write "/a/x" "1")).after
      (.write "/b" "2")) := .changed _ (.changed _ .new)
    refine ⟨_, reachable, ?_⟩
    decide +kernel
  rcases start with ⟨store, reachable, stops⟩
  rcases Action.exists_of_map_failure? stops with ⟨left, fails, _⟩
  exact ⟨store, left, reachable, fails, eq_iff_of_run_fails reachable fails⟩

/-- A directory that is copied or moved onto another one, where a directory is in
the place of its second file. The first file has been written over by then. -/
theorem overwritten_by_failing_run :
    ∃ tree, Reachable { current := .root, tree } ∧
      (∃ left, (Change.copy "/a" "/b").run (host .root) tree = .error (.notAFile "/b/q") left ∧
        tree.text? (Location.root.resolve "/b/p") = some "0" ∧
        left.text? (Location.root.resolve "/b/p") = some "1") ∧
      ∃ left, (Change.move "/a" "/b").run (host .root) tree = .error (.notAFile "/b/q") left ∧
        tree.text? (Location.root.resolve "/b/p") = some "0" ∧
        left.text? (Location.root.resolve "/b/p") = some "1" := by
  have start : ∃ tree, Reachable { current := .root, tree } ∧
      tree.text? (Location.root.resolve "/b/p") = some "0" ∧
      (((Change.copy "/a" "/b").run (host .root)).failure? tree).map
        (Prod.map id (·.text? (Location.root.resolve "/b/p"))) =
          some (.notAFile "/b/q", some "1") ∧
      (((Change.move "/a" "/b").run (host .root)).failure? tree).map
        (Prod.map id (·.text? (Location.root.resolve "/b/p"))) =
          some (.notAFile "/b/q", some "1") := by
    have reachable : Reachable (((((Store.mk .root .empty).after (.write "/a/p" "1")).after
      (.write "/a/q" "2")).after (.write "/b/p" "0")).after (.write "/b/q/r" "3")) :=
      .changed _ (.changed _ (.changed _ (.changed _ .new)))
    refine ⟨_, reachable, ?_⟩
    decide +kernel
  rcases start with ⟨tree, reachable, before, copies, moves⟩
  rcases Action.exists_of_map_failure? copies with ⟨copied, copyFails, copyWrote⟩
  rcases Action.exists_of_map_failure? moves with ⟨moved, moveFails, moveWrote⟩
  exact ⟨tree, reachable, ⟨copied, copyFails, before, copyWrote⟩,
    ⟨moved, moveFails, before, moveWrote⟩⟩

end Memory

end ScriptView
