import ScriptView.Proofs.Memory.Reachable

/-!
# What copying and moving do to texts

A copy goes through the files at or below its source in their order and writes
each to its new place, with the text that it has by then. If the target lies above
the source, a new place may be the place of a file that is copied later, which is
then copied with the text that has just been written over it; and a move removes
the new places that lie below the source together with the source. The conditions
under which this does not happen are exact.
-/

namespace ScriptView.Memory

open ScriptView.Action (exists_of_bind_eq_ok)

variable {source target : Location} {tree after : Tree}

theorem eq_ok_of_change {step : Tree → Except Error Tree} (done : change step tree = .ok () after) :
    step tree = .ok after := by
  rw [change] at done
  cases steps : step tree with
  | ok changed =>
      rw [steps] at done
      cases done
      rfl
  | error =>
      rw [steps] at done
      cases done

/-- Copying a file writes its text at its new place. -/
theorem text?_copyFile {file : Location} (isFile : tree.isFile file = true)
    (copied : copyFile source target file tree = .ok () after) (place : Location) :
    after.text? place =
      if place = file.rebase source target then tree.text? file else tree.text? place := by
  have done := eq_ok_of_change copied
  cases found : tree.text? file with
  | none =>
      rw [Tree.isFile_eq_isSome, found] at isFile
      contradiction
  | some text =>
      rw [found] at done
      exact Tree.text?_addFile done place

/-! ## Rows of files -/

/-- A row of different files, all at or below the source of a copy. -/
structure Copied (tree : Tree) (source : Location) (row : List Location) : Prop where
  isFile : ∀ file ∈ row, tree.isFile file = true
  isFrom : ∀ file ∈ row, source <+: file
  nodup : row.Nodup

namespace Copied

variable {row rest : List Location} {file place : Location}

/-- After the first file of a row the others are still to be copied. -/
theorem tail (copied : Copied tree source (file :: rest)) {between : Tree}
    (first : copyFile source target file tree = .ok () between) : Copied between source rest where
  isFile := by
    intro other member
    rw [Tree.isFile_eq_isSome, text?_copyFile (copied.isFile file List.mem_cons_self) first]
    split
    · rw [← Tree.isFile_eq_isSome]
      exact copied.isFile file List.mem_cons_self
    · rw [← Tree.isFile_eq_isSome]
      exact copied.isFile other (List.mem_cons_of_mem _ member)
  isFrom other member := copied.isFrom other (List.mem_cons_of_mem _ member)
  nodup := (List.nodup_cons.mp copied.nodup).2

/-- A place that no file of the row is copied to keeps its text. -/
theorem text?_of_untouched (copied : Copied tree source row)
    (done : row.forM (copyFile source target) tree = .ok () after)
    (untouched : ∀ file ∈ row, file.rebase source target ≠ place) :
    after.text? place = tree.text? place := by
  induction row generalizing tree with
  | nil =>
      cases done
      rfl
  | cons file rest ih =>
      rcases exists_of_bind_eq_ok done with ⟨⟨⟩, between, first, others⟩
      rw [ih (copied.tail first) others fun other member =>
          untouched other (List.mem_cons_of_mem _ member),
        text?_copyFile (copied.isFile file List.mem_cons_self) first,
        if_neg (untouched file List.mem_cons_self).symm]

/-- No other file of the row is copied to the place of the first one. -/
theorem text?_rebase_head (copied : Copied tree source (file :: rest))
    (done : (file :: rest).forM (copyFile source target) tree = .ok () after) :
    after.text? (file.rebase source target) = tree.text? file := by
  rcases exists_of_bind_eq_ok done with ⟨⟨⟩, between, first, others⟩
  have elsewhere : ∀ other ∈ rest,
      other.rebase source target ≠ file.rebase source target := by
    intro other member same
    have sameFile := Location.rebase_injective
      (copied.isFrom other (List.mem_cons_of_mem _ member))
      (copied.isFrom file List.mem_cons_self) same
    rw [sameFile] at member
    exact (List.nodup_cons.mp copied.nodup).1 member
  rw [(copied.tail first).text?_of_untouched others elsewhere,
    text?_copyFile (copied.isFile file List.mem_cons_self) first, if_pos rfl]

/-- A file that no file of the row is copied to is copied with its own text. -/
theorem text?_rebase_of_untouched (copied : Copied tree source row)
    (done : row.forM (copyFile source target) tree = .ok () after) (member : file ∈ row)
    (untouched : ∀ other ∈ row, other.rebase source target ≠ file) :
    after.text? (file.rebase source target) = tree.text? file := by
  induction row generalizing tree with
  | nil => contradiction
  | cons head rest ih =>
      rcases List.mem_cons.mp member with rfl | later
      · exact copied.text?_rebase_head done
      · rcases exists_of_bind_eq_ok done with ⟨⟨⟩, between, first, others⟩
        rw [ih (copied.tail first) others later fun other inRest =>
            untouched other (List.mem_cons_of_mem _ inRest),
          text?_copyFile (copied.isFile head List.mem_cons_self) first,
          if_neg (untouched head List.mem_cons_self).symm]

/-- A file that another one is copied to before is copied with the text of the
other one. -/
theorem pairwise_text?_rebase (copied : Copied tree source row)
    (done : row.forM (copyFile source target) tree = .ok () after) :
    row.Pairwise fun first second => first.rebase source target = second →
      after.text? (first.rebase source target) = after.text? (second.rebase source target) := by
  induction row generalizing tree with
  | nil => exact .nil
  | cons head rest ih =>
      have headText := copied.text?_rebase_head done
      rcases exists_of_bind_eq_ok done with ⟨⟨⟩, between, first, others⟩
      refine .cons ?_ (ih (copied.tail first) others)
      intro file member same
      have untouched : ∀ other ∈ rest, other.rebase source target ≠ file := by
        intro other inRest sameAgain
        have sameFile := Location.rebase_injective
          (copied.isFrom other (List.mem_cons_of_mem _ inRest))
          (copied.isFrom head List.mem_cons_self) (sameAgain.trans same.symm)
        rw [sameFile] at inRest
        exact (List.nodup_cons.mp copied.nodup).1 inRest
      rw [headText, (copied.tail first).text?_rebase_of_untouched others member untouched,
        text?_copyFile (copied.isFile head List.mem_cons_self) first, if_pos same.symm]

/-- Every file is copied with its own text exactly if none is overwritten with
another text before. -/
theorem text?_rebase_iff (copied : Copied tree source row)
    (done : row.forM (copyFile source target) tree = .ok () after) :
    (∀ file ∈ row, after.text? (file.rebase source target) = tree.text? file) ↔
      row.Pairwise fun first second => first.rebase source target = second →
        tree.text? first = tree.text? second := by
  constructor
  · intro arrives
    refine (copied.pairwise_text?_rebase done).imp_of_mem ?_
    intro first second firstMember secondMember sameText same
    rw [← arrives first firstMember, ← arrives second secondMember]
    exact sameText same
  · intro apart
    induction row generalizing tree with
    | nil =>
        intro file member
        contradiction
    | cons head rest ih =>
        have headText := copied.text?_rebase_head done
        rcases exists_of_bind_eq_ok done with ⟨⟨⟩, between, first, others⟩
        rcases List.pairwise_cons.mp apart with ⟨headApart, restApart⟩
        have sameText : ∀ other ∈ rest, between.text? other = tree.text? other := by
          intro other member
          rw [text?_copyFile (copied.isFile head List.mem_cons_self) first]
          split
          · next same => exact headApart other member same.symm
          · rfl
        have apartThen : rest.Pairwise fun first second =>
            first.rebase source target = second → between.text? first = between.text? second := by
          refine restApart.imp_of_mem ?_
          intro first second firstMember secondMember inTree same
          rw [sameText first firstMember, sameText second secondMember]
          exact inTree same
        intro file member
        rcases List.mem_cons.mp member with rfl | later
        · exact headText
        · rw [ih (copied.tail first) others apartThen file later, sameText file later]

end Copied

/-! ## The files of a copy -/

theorem Tree.mem_filesBelow {file top : Location} :
    file ∈ tree.filesBelow top ↔ tree.isFile file = true ∧ file.isBelow top = true := by
  rw [Tree.filesBelow, List.mem_filter, Std.ExtTreeMap.mem_keys, Tree.isFile,
    Std.ExtTreeMap.contains_iff_mem]

theorem Tree.ordered_filesBelow (tree : Tree) (top : Location) :
    (tree.filesBelow top).Pairwise fun first second => Location.order first second = .lt :=
  Std.ExtTreeMap.ordered_keys.filter _

theorem nodup_of_ordered {row : List Location}
    (ordered : row.Pairwise fun first second => Location.order first second = .lt) :
    row.Nodup := by
  refine ordered.imp ?_
  intro first second less same
  rw [same, Location.order_self] at less
  contradiction

/-- What holds in a row in the order of locations holds of any two of the row
that are in this order. -/
theorem pairwise_iff_of_ordered {row : List Location} {related : Location → Location → Prop}
    (ordered : row.Pairwise fun first second => Location.order first second = .lt) :
    row.Pairwise related ↔ ∀ first ∈ row, ∀ second ∈ row,
      Location.order first second = .lt → related first second := by
  constructor
  · intro pairwise first firstMember second secondMember
    have same : ∀ place ∈ row, Location.order place place = .lt → related place place := by
      intro place _ less
      rw [Location.order_self] at less
      contradiction
    have inOrder : row.Pairwise fun first second =>
        Location.order first second = .lt → related first second := by
      refine pairwise.imp ?_
      intro before behind holds _
      exact holds
    have against : row.Pairwise (flip fun first second =>
        Location.order first second = .lt → related first second) := by
      refine ordered.imp ?_
      intro before behind less greater
      rw [Std.OrientedCmp.gt_of_lt less] at greater
      contradiction
    exact List.Pairwise.forall_of_forall_of_flip same inOrder against firstMember secondMember
  · intro related
    refine ordered.imp_of_mem ?_
    intro first second firstMember secondMember less
    exact related first firstMember second secondMember less

/-- Making directories leaves the texts alone. -/
theorem text?_of_directories {row : List Location} {place : Location → Location}
    (done : (row.forM fun location => change (·.addDirectories (place location))) tree =
      .ok () after) (other : Location) : after.text? other = tree.text? other := by
  induction row generalizing tree with
  | nil =>
      cases done
      rfl
  | cons location rest ih =>
      rcases exists_of_bind_eq_ok done with ⟨⟨⟩, between, first, others⟩
      rw [ih others, Tree.text?_addDirectories (eq_ok_of_change first)]

/-- A copy that happens goes through the files at or below its source, in order,
in a tree that has the same texts. -/
theorem exists_row_of_copy (closed : tree.Closed) (done : copy source target tree = .ok () after) :
    target.isBelow source = false ∧ ∃ (row : List Location) (between : Tree),
      (∀ file, file ∈ row ↔ tree.isFile file = true ∧ file.isAtOrBelow source = true) ∧
      (row.Pairwise fun first second => Location.order first second = .lt) ∧
      (∀ place, between.text? place = tree.text? place) ∧
      row.forM (copyFile source target) between = .ok () after := by
  rw [copy] at done
  rcases exists_of_bind_eq_ok done with ⟨now, same, got, copied⟩
  cases got
  split at copied
  · cases copied
  · next notInto =>
    refine ⟨by simpa using notInto, ?_⟩
    split at copied
    · next isFile =>
      refine ⟨[source], tree, ?_, List.pairwise_singleton _ _, fun _ => rfl, ?_⟩
      · intro file
        rw [List.mem_singleton, Location.isAtOrBelow_iff]
        constructor
        · intro same
          rw [same]
          exact ⟨isFile, List.prefix_refl source⟩
        · rintro ⟨isThere, above⟩
          by_contra differs
          have directory := closed.isDirectory_above above (Ne.symm differs) isThere
          rw [closed.apart source isFile] at directory
          contradiction
      · have nothing : ([] : List Location).forM (copyFile source target) tree = .ok () tree := rfl
        exact (Action.forM_concat nothing).trans copied
    · next notFile =>
      split at copied
      · next isDirectory =>
        rcases exists_of_bind_eq_ok copied with ⟨⟨⟩, between, directories, files⟩
        refine ⟨tree.filesBelow source, between, ?_, tree.ordered_filesBelow source,
          text?_of_directories directories, files⟩
        intro file
        rw [Tree.mem_filesBelow, Location.isBelow_iff, Location.isAtOrBelow_iff]
        constructor
        · rintro ⟨isFile, above, _⟩
          exact ⟨isFile, above⟩
        · rintro ⟨isFile, above⟩
          refine ⟨isFile, above, ?_⟩
          intro same
          rw [same] at isFile
          exact notFile isFile
      · cases copied

/-! ## What arrives -/

namespace Tree

/-- The files at or below a source are found at their new places, with the texts
that they had. -/
def Arrives (source target : Location) (before after : Tree) : Prop :=
  ∀ file, before.isFile file = true → file.isAtOrBelow source = true →
    after.text? (file.rebase source target) = before.text? file

/-- No file of a copy is copied to the place of a later one that has another
text. -/
def Uncrossed (source target : Location) (tree : Tree) : Prop :=
  ∀ file, tree.isFile file = true → file.isAtOrBelow source = true →
    tree.isFile (file.rebase source target) = true →
    (file.rebase source target).isAtOrBelow source = true →
    Location.order file (file.rebase source target) = .lt →
    tree.text? file = tree.text? (file.rebase source target)

/-- No file of a move is moved to a place at or below the source. -/
def Departs (source target : Location) (tree : Tree) : Prop :=
  ∀ file, tree.isFile file = true → file.isAtOrBelow source = true →
    (file.rebase source target).isAtOrBelow source = false

end Tree

/-- The files of a copy are a row of files to copy. -/
theorem copied_of_row {row : List Location} {between : Tree}
    (members : ∀ file, file ∈ row ↔ tree.isFile file = true ∧ file.isAtOrBelow source = true)
    (ordered : row.Pairwise fun first second => Location.order first second = .lt)
    (sameText : ∀ place, between.text? place = tree.text? place) : Copied between source row where
  isFile file member := by
    rw [Tree.isFile_congr (sameText file)]
    exact ((members file).mp member).1
  isFrom file member := Location.isAtOrBelow_iff.mp ((members file).mp member).2
  nodup := nodup_of_ordered ordered

/-- A copy loses no text exactly if no file is overwritten with another text before
it is copied. -/
theorem arrives_copy_iff (closed : tree.Closed) (done : copy source target tree = .ok () after) :
    tree.Arrives source target after ↔ tree.Uncrossed source target := by
  rcases exists_row_of_copy closed done with ⟨_, row, between, members, ordered, sameText, files⟩
  have copied := copied_of_row members ordered sameText
  have arrives := (copied.text?_rebase_iff files).trans (pairwise_iff_of_ordered ordered)
  simp only [sameText, members] at arrives
  constructor
  · intro all file isFile isFrom isFileThere isFromThere less
    exact arrives.mp (fun other isCopied => all other isCopied.1 isCopied.2) file
      ⟨isFile, isFrom⟩ _ ⟨isFileThere, isFromThere⟩ less rfl
  · intro uncrossed file isFile isFrom
    refine arrives.mpr ?_ file ⟨isFile, isFrom⟩
    rintro first ⟨firstIsFile, firstIsFrom⟩ _ ⟨isFileThere, isFromThere⟩ less rfl
    exact uncrossed first firstIsFile firstIsFrom isFileThere isFromThere less

/-- What is not overwritten stays where it was. -/
theorem text?_copy_of_untouched (closed : tree.Closed)
    (done : copy source target tree = .ok () after) {place : Location}
    (untouched : ∀ file, tree.isFile file = true → file.isAtOrBelow source = true →
      file.rebase source target ≠ place) : after.text? place = tree.text? place := by
  rcases exists_row_of_copy closed done with ⟨_, row, between, members, ordered, sameText, files⟩
  have copied := copied_of_row members ordered sameText
  rw [copied.text?_of_untouched files, sameText]
  intro file member
  exact untouched file ((members file).mp member).1 ((members file).mp member).2

/-- A move loses no text exactly if nothing is moved to where it is removed. -/
theorem arrives_move_iff (closed : tree.Closed) (done : move source target tree = .ok () after) :
    tree.Arrives source target after ↔ tree.Departs source target := by
  rcases exists_of_bind_eq_ok done with ⟨⟨⟩, copied, copies, removes⟩
  have closedThen := (keeps_copy source target).of_ok closed copies
  have left := closedThen.text?_remove (eq_ok_of_change removes)
  constructor
  · intro arrives file isFile isFrom
    cases there : (file.rebase source target).isAtOrBelow source with
    | false => rfl
    | true =>
        have lost := arrives file isFile isFrom
        rw [left, there, if_pos rfl] at lost
        rw [Tree.isFile_eq_isSome, ← lost] at isFile
        contradiction
  · intro departs file isFile isFrom
    have uncrossed : tree.Uncrossed source target := by
      intro other isFileToo isFromToo _ there _
      rw [departs other isFileToo isFromToo] at there
      contradiction
    rw [left, departs file isFile isFrom, if_neg Bool.false_ne_true]
    exact (arrives_copy_iff closed copies).mpr uncrossed file isFile isFrom

/-- When copying and moving lose nothing. Whatever a copy does not write over
keeps its text in any case. -/
theorem arrives_iff {store : Store} (reachable : Reachable store) {source target : String}
    (differs : store.current.resolve source ≠ store.current.resolve target) (after : Tree) :
    ((host store.current).copy source target store.tree = .ok () after →
      (store.tree.Arrives (store.current.resolve source) (store.current.resolve target) after ↔
        store.tree.Uncrossed (store.current.resolve source) (store.current.resolve target)) ∧
      ∀ file, store.tree.isFile file = true →
        file.isAtOrBelow (store.current.resolve source) = true →
        (∀ other, store.tree.isFile other = true →
          other.isAtOrBelow (store.current.resolve source) = true → other ≠ file →
          other.rebase (store.current.resolve source) (store.current.resolve target) ≠ file) →
        after.text? file = store.tree.text? file) ∧
    ((host store.current).move source target store.tree = .ok () after →
      (store.tree.Arrives (store.current.resolve source) (store.current.resolve target) after ↔
        store.tree.Departs (store.current.resolve source) (store.current.resolve target))) := by
  have closed := reachable.closed
  constructor
  · intro done
    rw [host] at done
    dsimp only at done
    rw [if_neg differs] at done
    refine ⟨arrives_copy_iff closed done, ?_⟩
    intro file _ isFrom untouched
    apply text?_copy_of_untouched closed done
    intro other isFileToo isFromToo
    by_cases same : other = file
    · rw [same]
      exact Location.rebase_ne (Location.isAtOrBelow_iff.mp isFrom) differs
    · exact untouched other isFileToo isFromToo same
  · intro done
    rw [host] at done
    dsimp only at done
    rw [if_neg differs] at done
    exact arrives_move_iff closed done

/-- A directory that is copied or moved beside the one that it is in. -/
theorem arrives_iff_beside :
    ∃ store, Reachable store ∧ store.current.resolve "/a/b" ≠ store.current.resolve "c" ∧
      (∃ after, (host store.current).copy "/a/b" "c" store.tree = .ok () after ∧
        (store.tree.Arrives (store.current.resolve "/a/b") (store.current.resolve "c") after ↔
          store.tree.Uncrossed (store.current.resolve "/a/b") (store.current.resolve "c"))) ∧
      ∃ after, (host store.current).move "/a/b" "c" store.tree = .ok () after ∧
        (store.tree.Arrives (store.current.resolve "/a/b") (store.current.resolve "c") after ↔
          store.tree.Departs (store.current.resolve "/a/b") (store.current.resolve "c")) := by
  have start : ∃ store, Reachable store ∧
      store.current.resolve "/a/b" ≠ store.current.resolve "c" ∧
      (((host store.current).copy "/a/b" "c").left? store.tree).map Tree.filePaths =
        some ["/a/b/x", "/c/x"] ∧
      (((host store.current).move "/a/b" "c").left? store.tree).map Tree.filePaths =
        some ["/c/x"] := by
    refine ⟨(Store.mk .root .empty).after (.write "/a/b/x" "1"), .changed _ .new, ?_⟩
    decide +kernel
  rcases start with ⟨store, reachable, differs, copies, moves⟩
  rcases Action.exists_of_map_left? copies with ⟨copied, copyDone, _⟩
  rcases Action.exists_of_map_left? moves with ⟨moved, moveDone, _⟩
  exact ⟨store, reachable, differs,
    ⟨copied, copyDone, ((arrives_iff reachable differs copied).1 copyDone).1⟩,
    ⟨moved, moveDone, (arrives_iff reachable differs moved).2 moveDone⟩⟩

/-- A directory that is copied or moved onto the one that it is in, with a directory
of its own name in it. The copy writes over the file `x` before it is copied, and
the move removes the file `b/x` at its new place. -/
theorem lost_onto_parent :
    ∃ tree, Reachable { current := .root, tree } ∧
      Location.root.resolve "/a/b" ≠ Location.root.resolve "/a" ∧
      (∃ after, (host .root).copy "/a/b" "/a" tree = .ok () after ∧
        (Location.root.resolve "/a/b/x").isAtOrBelow (Location.root.resolve "/a/b") = true ∧
        tree.text? (Location.root.resolve "/a/b/x") = some "2" ∧
        after.text? ((Location.root.resolve "/a/b/x").rebase (Location.root.resolve "/a/b")
          (Location.root.resolve "/a")) = some "1") ∧
      ∃ after, (host .root).move "/a/b" "/a" tree = .ok () after ∧
        (Location.root.resolve "/a/b/b/x").isAtOrBelow (Location.root.resolve "/a/b") = true ∧
        tree.text? (Location.root.resolve "/a/b/b/x") = some "1" ∧
        after.text? ((Location.root.resolve "/a/b/b/x").rebase (Location.root.resolve "/a/b")
          (Location.root.resolve "/a")) = none := by
  have start : ∃ tree, Reachable { current := .root, tree } ∧
      tree.text? (Location.root.resolve "/a/b/b/x") = some "1" ∧
      tree.text? (Location.root.resolve "/a/b/x") = some "2" ∧
      (((host .root).copy "/a/b" "/a").left? tree).map
        (·.text? ((Location.root.resolve "/a/b/x").rebase (Location.root.resolve "/a/b")
          (Location.root.resolve "/a"))) = some (some "1") ∧
      (((host .root).move "/a/b" "/a").left? tree).map
        (·.text? ((Location.root.resolve "/a/b/b/x").rebase (Location.root.resolve "/a/b")
          (Location.root.resolve "/a"))) = some none := by
    have reachable : Reachable (((Store.mk .root .empty).after (.write "/a/b/b/x" "1")).after
      (.write "/a/b/x" "2")) := .changed _ (.changed _ .new)
    refine ⟨_, reachable, ?_⟩
    decide +kernel
  rcases start with ⟨tree, reachable, first, second, copies, moves⟩
  rcases Action.exists_of_map_left? copies with ⟨copied, copyDone, overwritten⟩
  rcases Action.exists_of_map_left? moves with ⟨moved, moveDone, removed⟩
  exact ⟨tree, reachable, by decide +kernel,
    ⟨copied, copyDone, by decide +kernel, second, overwritten⟩,
    ⟨moved, moveDone, by decide +kernel, first, removed⟩⟩

end ScriptView.Memory
