import ScriptView.Proofs.Memory.Failure

/-!
# Copies between places apart

If neither of two places is at or above the other, a copy from one to the other reads
nothing that it has written. It can then be told beforehand whether the copy happens:
it does unless a file is in the way of a directory or a directory in the way of a
file. What it leaves is given place by place, and a move leaves the same without what
was moved.
-/

namespace ScriptView

namespace Location

/-- Neither of two places is at or above the other. -/
structure Apart (source target : Location) : Prop where
  notAbove : ¬source <+: target
  notBelow : ¬target <+: source

@[simp] theorem rebase_self (source target : Location) : rebase source source target = target := by
  simp [rebase]

namespace Apart

variable {source target : Location}

theorem ne (apart : Apart source target) : source ≠ target := by
  intro same
  rw [same] at apart
  exact apart.notAbove (List.prefix_refl target)

theorem source_ne_root (apart : Apart source target) : source ≠ root := by
  intro isRoot
  rw [isRoot] at apart
  exact apart.notAbove List.nil_prefix

theorem target_ne_root (apart : Apart source target) : target ≠ root := by
  intro isRoot
  rw [isRoot] at apart
  exact apart.notBelow List.nil_prefix

theorem isBelow_eq_false (apart : Apart source target) : target.isBelow source = false := by
  apply Bool.eq_false_iff.mpr
  intro below
  exact apart.notAbove (isBelow_iff.mp below).1

/-- Nothing that moves from one place to the other stays where it was. -/
theorem isAtOrBelow_rebase (apart : Apart source target) (location : Location) :
    (location.rebase source target).isAtOrBelow source = false := by
  apply Bool.eq_false_iff.mpr
  intro atOrBelow
  have above := isAtOrBelow_iff.mp atOrBelow
  cases List.prefix_or_prefix_of_prefix above (List.prefix_append target _) with
  | inl aboveTarget => exact apart.notAbove aboveTarget
  | inr aboveSource => exact apart.notBelow aboveSource

end Apart

end Location

namespace Memory

open ScriptView.Action (exists_of_bind_eq_ok fails_or_of_bind_eq_error exists_of_forM_eq_error)

variable {source target : Location} {tree after left : Tree} {error : Error}

namespace Tree

/-- Nothing is in the way of a copy: no file above the target or where a directory is
copied to or above that, and no directory where a file is copied to. -/
structure Fits (source target : Location) (tree : Tree) : Prop where
  isThere : tree.isFile source = true ∨ tree.isDirectory source = true
  above : ∀ place, place <+: target → place ≠ target → tree.isFile place = false
  directories : ∀ directory, tree.isDirectory directory = true →
    directory.isAtOrBelow source = true → ¬tree.Bars (directory.rebase source target)
  files : ∀ file, tree.isFile file = true → file.isAtOrBelow source = true →
    tree.isDirectory (file.rebase source target) = false

/-- A tree is another one with what is at or below a source copied to a target. The
directories above the target are made for it. -/
structure HasCopy (source target : Location) (before after : Tree) : Prop where
  arrives : before.Arrives source target after
  text : ∀ place, (∀ file, before.isFile file = true → file.isAtOrBelow source = true →
    file.rebase source target ≠ place) → after.text? place = before.text? place
  isDirectory : ∀ place, after.isDirectory place = true ↔
    before.isDirectory place = true ∨ (place <+: target ∧ place ≠ target) ∨
      ∃ directory, before.isDirectory directory = true ∧ directory.isAtOrBelow source = true ∧
        directory.rebase source target = place

/-- A tree is another one without what is at or below a place. -/
structure Loses (top : Location) (before after : Tree) : Prop where
  text : ∀ place, after.text? place =
    if place.isAtOrBelow top then none else before.text? place
  isDirectory : ∀ place, after.isDirectory place =
    (before.isDirectory place && !place.isAtOrBelow top)

namespace Closed

variable {file place location : Location}

/-- No directory is at or below a file. -/
theorem isAtOrBelow_eq_false (closed : tree.Closed) (isFile : tree.isFile file = true)
    (directory : tree.isDirectory place = true) : place.isAtOrBelow file = false := by
  apply Bool.eq_false_iff.mpr
  intro atOrBelow
  rw [closed.isFile_of_prefix (Location.isAtOrBelow_iff.mp atOrBelow) directory] at isFile
  contradiction

/-- The only file at or below a file is the file itself. -/
theorem eq_of_isAtOrBelow (closed : tree.Closed) (isFile : tree.isFile file = true)
    (isFileToo : tree.isFile place = true) (atOrBelow : place.isAtOrBelow file = true) :
    place = file :=
  closed.eq_of_isFile (List.prefix_refl place) (Location.isAtOrBelow_iff.mp atOrBelow) isFileToo
    isFile

/-- A file can be written where no directory is and no file is above. -/
theorem exists_addFile_iff (closed : tree.Closed) (text : String) :
    (∃ written, tree.addFile location text = .ok written) ↔
      tree.isDirectory location = false ∧
        ∀ place, place <+: location.dropLast → tree.isFile place = false := by
  constructor
  · intro writes
    obtain ⟨written, added⟩ := writes
    obtain ⟨notDirectory, made, directories, -⟩ := exists_made_of_addFile added
    exact ⟨notDirectory, fun place above => closed.isFile_made directories above⟩
  · intro free
    obtain ⟨notDirectory, noFile⟩ := free
    obtain ⟨made, directories⟩ := exists_addDirectories noFile
    rw [Tree.addFile, notDirectory, if_neg Bool.false_ne_true, directories]
    exact ⟨_, rfl⟩

/-- Removing a place that is not the root takes away all that is at or below it. -/
theorem loses_of_remove (closed : tree.Closed) (below : location ≠ .root)
    (removed : tree.remove location = .ok left) : tree.Loses location left where
  text place := closed.text?_remove removed place
  isDirectory place := by
    rw [isDirectory_remove removed]
    cases directory : tree.isDirectory place with
    | false => rfl
    | true =>
        cases isFile : tree.isFile location with
        | true => rw [closed.isAtOrBelow_eq_false isFile directory, Bool.true_or]; rfl
        | false =>
            by_cases isRoot : place = .root
            · have away : place.isAtOrBelow location = false := by
                apply Bool.eq_false_iff.mpr
                intro atOrBelow
                rw [isRoot] at atOrBelow
                exact below (List.prefix_nil.mp (Location.isAtOrBelow_iff.mp atOrBelow))
              rw [away, Bool.not_false, Bool.or_true]
            · simp [isRoot]

end Closed

end Tree

/-! ## What a copy comes to -/

section Copy

theorem copy_of_isFile (notInto : target.isBelow source = false)
    (isFile : tree.isFile source = true) :
    copy source target tree = copyFile source target source tree := by
  have looks : (get : Action Tree Tree) tree = .ok tree tree := rfl
  rw [copy, Action.bind_of_ok looks, if_neg (by simp [notInto]), if_pos isFile]

theorem copy_of_isDirectory (notInto : target.isBelow source = false)
    (notFile : tree.isFile source = false) (isDirectory : tree.isDirectory source = true) :
    copy source target tree = ((tree.directoriesFrom source).forM (fun location =>
      change (·.addDirectories (location.rebase source target))) >>= fun _ =>
        (tree.filesBelow source).forM (copyFile source target)) tree := by
  have looks : (get : Action Tree Tree) tree = .ok tree tree := rfl
  rw [copy, Action.bind_of_ok looks, if_neg (by simp [notInto]), if_neg (by simp [notFile]),
    if_pos isDirectory]

theorem copy_of_absent (notInto : target.isBelow source = false)
    (notFile : tree.isFile source = false) (notDirectory : tree.isDirectory source = false) :
    copy source target tree = .error (.fileNotFound source.text) tree := by
  have looks : (get : Action Tree Tree) tree = .ok tree tree := rfl
  rw [copy, Action.bind_of_ok looks, if_neg (by simp [notInto]), if_neg (by simp [notFile]),
    if_neg (by simp [notDirectory])]
  rfl

end Copy

/-! ## A single file -/

section File

theorem addFile_of_copyFile (isFile : tree.isFile source = true) (target : Location) :
    ∃ text, tree.text? source = some text ∧
      copyFile source target source tree = change (·.addFile target text) tree := by
  rw [Tree.isFile_eq_isSome, Option.isSome_iff_exists] at isFile
  obtain ⟨text, found⟩ := isFile
  refine ⟨text, found, ?_⟩
  rw [copyFile, change, change, found, Location.rebase_self]

theorem exists_copyFile_iff (closed : tree.Closed) (isFile : tree.isFile source = true) :
    (∃ copied, copyFile source target source tree = .ok () copied) ↔
      tree.isDirectory target = false ∧
        ∀ place, place <+: target.dropLast → tree.isFile place = false := by
  obtain ⟨text, -, writes⟩ := addFile_of_copyFile isFile target
  rw [writes, ← closed.exists_addFile_iff text]
  constructor
  · intro copies
    obtain ⟨copied, done⟩ := copies
    exact ⟨copied, eq_ok_of_change done⟩
  · intro adds
    obtain ⟨written, added⟩ := adds
    refine ⟨written, ?_⟩
    rw [change, added]

/-- A file fits where it can be written. -/
theorem fits_iff_of_isFile (closed : tree.Closed) (apart : source.Apart target)
    (isFile : tree.isFile source = true) :
    tree.Fits source target ↔
      tree.isDirectory target = false ∧
        ∀ place, place <+: target.dropLast → tree.isFile place = false := by
  constructor
  · intro fits
    constructor
    · have free := fits.files source isFile (Location.isAtOrBelow_iff.mpr (List.prefix_refl _))
      rwa [Location.rebase_self] at free
    · intro place above
      obtain ⟨inside, differs⟩ := (Location.prefix_dropLast_iff apart.target_ne_root).mp above
      exact fits.above place inside differs
  · intro free
    obtain ⟨notDirectory, noFile⟩ := free
    constructor
    · exact .inl isFile
    · intro place inside differs
      exact noFile place ((Location.prefix_dropLast_iff apart.target_ne_root).mpr ⟨inside, differs⟩)
    · intro directory isDirectory atOrBelow
      rw [closed.isAtOrBelow_eq_false isFile isDirectory] at atOrBelow
      contradiction
    · intro file isFileToo atOrBelow
      rw [closed.eq_of_isAtOrBelow isFile isFileToo atOrBelow, Location.rebase_self]
      exact notDirectory

/-- Copying a file makes the directories above its new place and no other. -/
theorem isDirectory_of_copyFile (closed : tree.Closed) (apart : source.Apart target)
    (isFile : tree.isFile source = true)
    (copied : copyFile source target source tree = .ok () after) (place : Location) :
    after.isDirectory place = true ↔
      tree.isDirectory place = true ∨ (place <+: target ∧ place ≠ target) := by
  obtain ⟨text, -, writes⟩ := addFile_of_copyFile isFile target
  rw [writes] at copied
  obtain ⟨-, made, directories, same⟩ := Tree.exists_made_of_addFile (eq_ok_of_change copied)
  rw [same, closed.isDirectory_made directories,
    Location.prefix_dropLast_iff apart.target_ne_root]

end File

/-! ## A directory -/

section Directory

/-- A directory fits where its directories can be made and its files have where to go. -/
theorem fits_of_copy_directory {between : Tree} (closed : tree.Closed)
    (isDirectory : tree.isDirectory source = true)
    (directories : ((tree.directoriesFrom source).forM fun location =>
      change (·.addDirectories (location.rebase source target))) tree = .ok () between)
    (files : (tree.filesBelow source).forM (copyFile source target) between = .ok () after) :
    tree.Fits source target := by
  have itself : source.isAtOrBelow source = true :=
    Location.isAtOrBelow_iff.mpr (List.prefix_refl source)
  have free : ∀ directory, tree.isDirectory directory = true →
      directory.isAtOrBelow source = true → ¬tree.Bars (directory.rebase source target) := by
    intro directory isThere atOrBelow
    exact not_bars_of_directories closed directories directory
      (Tree.mem_directoriesFrom.mpr ⟨isThere, atOrBelow⟩)
  constructor
  · exact .inr isDirectory
  · intro place above _
    have notBarred := free source isDirectory itself
    rw [Location.rebase_self] at notBarred
    exact Bool.eq_false_iff.mpr fun isFile => notBarred ⟨place, above, isFile⟩
  · exact free
  · intro file isFile atOrBelow
    have differs : file ≠ source := by
      intro same
      rw [same] at isFile
      rw [closed.apart source isFile] at isDirectory
      contradiction
    have member : file ∈ tree.filesBelow source :=
      Tree.mem_filesBelow.mpr ⟨isFile, Location.isBelow_iff.mpr
        ⟨Location.isAtOrBelow_iff.mp atOrBelow, differs⟩⟩
    have housed := housed_of_directories closed directories
    have notThere := housed.isDirectory_rebase files file member
    rw [isDirectory_rebase_of_directories closed directories member] at notThere
    exact Bool.eq_false_iff.mpr notThere

/-- Where a directory fits, all of it is copied. -/
theorem exists_copy_directory_of_fits (closed : tree.Closed) (fits : tree.Fits source target) :
    ∃ between copied, ((tree.directoriesFrom source).forM fun location =>
        change (·.addDirectories (location.rebase source target))) tree = .ok () between ∧
      (tree.filesBelow source).forM (copyFile source target) between = .ok () copied := by
  cases directories : ((tree.directoriesFrom source).forM fun location =>
      change (·.addDirectories (location.rebase source target))) tree with
  | error error left =>
      obtain ⟨earlier, stop, later, between, split, done, stops⟩ :=
        exists_of_forM_eq_error directories
      have barred : tree.Bars (stop.rebase source target) :=
        (Tree.bars_congr (text?_of_directories done) _).mp
          (Tree.bars_of_addDirectories (eq_and_eq_of_change stops).2)
      have member : stop ∈ tree.directoriesFrom source := by simp [split]
      obtain ⟨isDirectory, atOrBelow⟩ := Tree.mem_directoriesFrom.mp member
      exact absurd barred (fits.directories stop isDirectory atOrBelow)
  | ok value between =>
      refine ⟨between, ?_⟩
      cases files : (tree.filesBelow source).forM (copyFile source target) between with
      | ok value copied => exact ⟨copied, rfl, rfl⟩
      | error error left =>
          obtain ⟨earlier, stop, later, last, split, done, stops⟩ := exists_of_forM_eq_error files
          have inTheWay := (isDirectory_of_first_fails closed directories split done stops).1
          have member : stop ∈ tree.filesBelow source := by simp [split]
          obtain ⟨isFile, isBelow⟩ := Tree.mem_filesBelow.mp member
          have atOrBelow := Location.isAtOrBelow_iff.mpr (Location.isBelow_iff.mp isBelow).1
          rw [fits.files stop isFile atOrBelow] at inTheWay
          contradiction

/-- Copying a directory makes the directories above the target and those that are
copied. -/
theorem isDirectory_of_copy_directory {between : Tree} (closed : tree.Closed)
    (isDirectory : tree.isDirectory source = true)
    (directories : ((tree.directoriesFrom source).forM fun location =>
      change (·.addDirectories (location.rebase source target))) tree = .ok () between)
    (files : (tree.filesBelow source).forM (copyFile source target) between = .ok () after)
    (place : Location) :
    after.isDirectory place = true ↔
      tree.isDirectory place = true ∨ (place <+: target ∧ place ≠ target) ∨
        ∃ directory, tree.isDirectory directory = true ∧ directory.isAtOrBelow source = true ∧
          directory.rebase source target = place := by
  rw [(housed_of_directories closed directories).isDirectory_eq files,
    isDirectory_of_directories closed directories]
  simp only [Tree.mem_directoriesFrom, Location.isAtOrBelow_iff, and_assoc]
  constructor
  · intro isThere
    cases isThere with
    | inl old => exact .inl old
    | inr made =>
        obtain ⟨directory, isCopied, ⟨rest, rfl⟩, above⟩ := made
        rw [Location.rebase_append] at above
        right
        cases List.prefix_or_prefix_of_prefix above (List.prefix_append target rest) with
        | inl aboveTarget =>
            by_cases same : place = target
            · right
              refine ⟨source, isDirectory, List.prefix_refl source, ?_⟩
              rw [Location.rebase_self, same]
            · exact .inl ⟨aboveTarget, same⟩
        | inr belowTarget =>
            obtain ⟨front, rfl⟩ := belowTarget
            have inFront := (List.prefix_append_right_inj target).mp above
            right
            refine ⟨source ++ front, ?_, List.prefix_append source front, ?_⟩
            · exact closed.isDirectory_of_prefix ((List.prefix_append_right_inj source).mpr inFront)
                isCopied
            · rw [Location.rebase_append]
  · intro isThere
    cases isThere with
    | inl old => exact .inl old
    | inr made =>
        right
        cases made with
        | inl above =>
            refine ⟨source, isDirectory, List.prefix_refl source, ?_⟩
            rw [Location.rebase_self]
            exact above.1
        | inr copied =>
            obtain ⟨directory, isCopied, atOrBelow, rfl⟩ := copied
            exact ⟨directory, isCopied, atOrBelow, List.prefix_refl _⟩

end Directory

/-! ## Copies and moves between places apart -/

section Both

variable (closed : tree.Closed) (apart : source.Apart target)

include closed apart

theorem exists_copy_iff :
    (∃ copied, copy source target tree = .ok () copied) ↔ tree.Fits source target := by
  have notInto := apart.isBelow_eq_false
  cases isFile : tree.isFile source with
  | true =>
      rw [copy_of_isFile notInto isFile, exists_copyFile_iff closed isFile,
        fits_iff_of_isFile closed apart isFile]
  | false =>
      cases isDirectory : tree.isDirectory source with
      | true =>
          rw [copy_of_isDirectory notInto isFile isDirectory]
          constructor
          · intro copies
            obtain ⟨copied, done⟩ := copies
            obtain ⟨⟨⟩, between, directories, files⟩ := exists_of_bind_eq_ok done
            exact fits_of_copy_directory closed isDirectory directories files
          · intro fits
            obtain ⟨between, copied, directories, files⟩ := exists_copy_directory_of_fits closed fits
            exact ⟨copied, (Action.bind_of_ok directories).trans files⟩
      | false =>
          rw [copy_of_absent notInto isFile isDirectory]
          constructor
          · intro copies
            obtain ⟨copied, done⟩ := copies
            contradiction
          · intro fits
            have isThere := fits.isThere
            rw [isFile, isDirectory] at isThere
            simp at isThere

theorem hasCopy_of_copy (done : copy source target tree = .ok () after) :
    tree.HasCopy source target after := by
  have notInto := apart.isBelow_eq_false
  have uncrossed : tree.Uncrossed source target := by
    intro file _ _ _ stays _
    rw [apart.isAtOrBelow_rebase] at stays
    contradiction
  constructor
  · exact (arrives_copy_iff closed done).mpr uncrossed
  · intro place untouched
    exact text?_copy_of_untouched closed done untouched
  · intro place
    cases isFile : tree.isFile source with
    | true =>
        rw [copy_of_isFile notInto isFile] at done
        rw [isDirectory_of_copyFile closed apart isFile done]
        constructor
        · intro isThere
          exact isThere.imp_right .inl
        · intro isThere
          refine isThere.imp_right ?_
          intro made
          cases made with
          | inl above => exact above
          | inr copied =>
              obtain ⟨directory, isDirectory, atOrBelow, -⟩ := copied
              rw [closed.isAtOrBelow_eq_false isFile isDirectory] at atOrBelow
              contradiction
    | false =>
        cases isDirectory : tree.isDirectory source with
        | true =>
            rw [copy_of_isDirectory notInto isFile isDirectory] at done
            obtain ⟨⟨⟩, between, directories, files⟩ := exists_of_bind_eq_ok done
            exact isDirectory_of_copy_directory closed isDirectory directories files place
        | false =>
            rw [copy_of_absent notInto isFile isDirectory] at done
            contradiction

omit apart in
theorem exists_move_iff :
    (∃ moved, move source target tree = .ok () moved) ↔
      ∃ copied, copy source target tree = .ok () copied := by
  constructor
  · intro moves
    obtain ⟨moved, done⟩ := moves
    obtain ⟨⟨⟩, copied, copies, -⟩ := exists_of_bind_eq_ok done
    exact ⟨copied, copies⟩
  · intro copies
    obtain ⟨copied, done⟩ := copies
    cases moves : move source target tree with
    | ok value moved => exact ⟨moved, rfl⟩
    | error error left =>
        rw [copy_fails_of_move_fails closed moves] at done
        contradiction

theorem exists_loses_of_move (done : move source target tree = .ok () after) :
    ∃ copied, copy source target tree = .ok () copied ∧ copied.Loses source after := by
  obtain ⟨⟨⟩, copied, copies, removes⟩ := exists_of_bind_eq_ok done
  have closedThen := (keeps_copy source target).of_ok closed copies
  exact ⟨copied, copies, closedThen.loses_of_remove apart.source_ne_root (eq_ok_of_change removes)⟩

end Both

theorem host_copy {current : Location} {source target : String}
    (differs : current.resolve source ≠ current.resolve target) :
    (host current).copy source target = copy (current.resolve source) (current.resolve target) :=
  if_neg differs

theorem host_move {current : Location} {source target : String}
    (differs : current.resolve source ≠ current.resolve target) :
    (host current).move source target = move (current.resolve source) (current.resolve target) :=
  if_neg differs

/-- A copy or a move between places apart happens exactly if nothing is in its way. A
copy then changes exactly what it is for, and a move leaves the same without what was
moved. -/
theorem transfers_apart {store : Store} (reachable : Reachable store) {source target : String}
    (apart : (store.current.resolve source).Apart (store.current.resolve target)) :
    ((∃ copied, (host store.current).copy source target store.tree = .ok () copied) ↔
      store.tree.Fits (store.current.resolve source) (store.current.resolve target)) ∧
    (∀ copied, (host store.current).copy source target store.tree = .ok () copied →
      store.tree.HasCopy (store.current.resolve source) (store.current.resolve target) copied) ∧
    ((∃ moved, (host store.current).move source target store.tree = .ok () moved) ↔
      store.tree.Fits (store.current.resolve source) (store.current.resolve target)) ∧
    ∀ moved, (host store.current).move source target store.tree = .ok () moved →
      ∃ copied, (host store.current).copy source target store.tree = .ok () copied ∧
        copied.Loses (store.current.resolve source) moved := by
  have closed := reachable.closed
  rw [host_copy apart.ne, host_move apart.ne]
  refine ⟨exists_copy_iff closed apart, ?_, ?_, ?_⟩
  · intro copied done
    exact hasCopy_of_copy closed apart done
  · rw [exists_move_iff closed, exists_copy_iff closed apart]
  · intro moved done
    exact exists_loses_of_move closed apart done

/-- A directory that is copied or moved onto one that has a file of the same name. -/
theorem transfers_apart_merging :
    ∃ store copied moved, Reachable store ∧
      (store.current.resolve "/a").Apart (store.current.resolve "b/c") ∧
      store.tree.Fits (store.current.resolve "/a") (store.current.resolve "b/c") ∧
      (host store.current).copy "/a" "b/c" store.tree = .ok () copied ∧
      store.tree.HasCopy (store.current.resolve "/a") (store.current.resolve "b/c") copied ∧
      (host store.current).move "/a" "b/c" store.tree = .ok () moved ∧
      copied.Loses (store.current.resolve "/a") moved := by
  have start : ∃ store, Reachable store ∧
      ¬store.current.resolve "/a" <+: store.current.resolve "b/c" ∧
      ¬store.current.resolve "b/c" <+: store.current.resolve "/a" ∧
      (((host store.current).copy "/a" "b/c").left? store.tree).map Tree.filePaths =
        some ["/a/d/y", "/a/x", "/b/c/d/y", "/b/c/x"] ∧
      (((host store.current).move "/a" "b/c").left? store.tree).map Tree.filePaths =
        some ["/b/c/d/y", "/b/c/x"] := by
    refine ⟨_, .changed (.write "/b/c/x" "0") (.changed (.write "/a/d/y" "2")
      (.changed (.write "/a/x" "1") .new)), ?_⟩
    decide +kernel
  obtain ⟨store, reachable, notAbove, notBelow, copies, moves⟩ := start
  obtain ⟨copied, copyDone, -⟩ := Action.exists_of_map_left? copies
  obtain ⟨moved, moveDone, -⟩ := Action.exists_of_map_left? moves
  have apart : (store.current.resolve "/a").Apart (store.current.resolve "b/c") :=
    ⟨notAbove, notBelow⟩
  obtain ⟨fits, hasCopy, -, loses⟩ := transfers_apart reachable apart
  obtain ⟨copiedFirst, copyDoneToo, losesAll⟩ := loses moved moveDone
  cases copyDone.symm.trans copyDoneToo
  exact ⟨store, copied, moved, reachable, apart, fits.mp ⟨copied, copyDone⟩, copyDone,
    hasCopy copied copyDone, moveDone, losesAll⟩

end Memory

end ScriptView
