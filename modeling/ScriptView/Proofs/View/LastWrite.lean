import ScriptView.Proofs.Component.Emptied
import ScriptView.Proofs.View.Stack

/-!
# The last write wins

A script that is written over another one leaves the same component, and in a host
the same tree, as if the other one had never been written. This holds as long as
the first script lasts. A blank script empties its block unless the block names a
file; the next script then goes into another block, or nowhere if no other element
makes one.
-/

namespace ScriptView

namespace Memory.Tree

/-- What is written over a file makes the same of the tree before it and after it. -/
theorem Closed.addFile_addFile {tree written : Tree} {place : Location} {text : String}
    (closed : tree.Closed) (file : tree.isFile place = true)
    (added : tree.addFile place text = .ok written) (other : String) :
    written.addFile place other = tree.addFile place other := by
  have same := closed.sameBut_of_addFile file added
  have fileThen : written.isFile place = true := (same.isFile place).trans file
  rcases closed.exists_addFile file other with ⟨once, addedOnce⟩
  rcases (closed.addFile added).exists_addFile fileThen other with ⟨twice, addedTwice⟩
  have sameOnce := closed.sameBut_of_addFile file addedOnce
  have sameTwice := (closed.addFile added).sameBut_of_addFile fileThen addedTwice
  rw [addedOnce, addedTwice]
  congr 1
  apply Tree.ext_view
  · intro location
    by_cases here : location = place
    · rw [text?_addFile addedTwice, text?_addFile addedOnce, if_pos here, if_pos here]
    · rw [sameTwice.text location here, same.text location here, sameOnce.text location here]
  · intro location
    rw [sameTwice.isDirectory, same.isDirectory, sameOnce.isDirectory]

end Memory.Tree

namespace View

open Component

section Write

variable {current : Location} {mapping : Mapping} {path : String} {tree : Memory.Tree}
  {document : String} (closed : tree.Closed) (virtual : mapping.isVirtual path = true)
  (stored : (Memory.host current).read (mapping.toComponent path) tree = .ok document)

include closed virtual stored

/-- Writing a script to a component that has one. -/
theorem exists_write_of_withScript? {script changed : String}
    (wrote : withScript? document script = some changed) :
    ∃ written, ((Memory.host current).view mapping).write path script tree = .ok () written ∧
      tree.addFile (current.resolve (mapping.toComponent path)) changed = .ok written ∧
      (Memory.host current).read (mapping.toComponent path) written = .ok changed := by
  have file : tree.isFile (current.resolve (mapping.toComponent path)) = true := by
    rw [Memory.Tree.isFile_eq_isSome, Memory.Tree.read_eq_ok.mp stored]
    rfl
  rcases closed.exists_addFile file changed with ⟨written, added⟩
  refine ⟨written, ?_, added, ?_⟩
  · change write mapping (Memory.host current) path script tree = _
    rw [write_of_read_ok virtual stored, wrote]
    exact Memory.write_of_addFile added
  · apply Memory.Tree.read_eq_ok.mpr
    rw [Memory.Tree.text?_addFile added, if_pos rfl]

/-- A script that is written over another one leaves the tree that it leaves without
the other one, if it makes the same of both components. -/
theorem exists_overwritten {script other changed last : String}
    (wrote : withScript? document script = some changed)
    (again : withScript? changed other = some last) (atOnce : withScript? document other = some last) :
    ∃ written overwritten,
      ((Memory.host current).view mapping).write path script tree = .ok () written ∧
      ((Memory.host current).view mapping).write path other written = .ok () overwritten ∧
      ((Memory.host current).view mapping).write path other tree = .ok () overwritten := by
  rcases exists_write_of_withScript? closed virtual stored wrote with
    ⟨written, writes, added, storedThen⟩
  rcases exists_write_of_withScript? (closed.addFile added) virtual storedThen again with
    ⟨overwritten, writesAgain, addedAgain, _⟩
  rcases exists_write_of_withScript? closed virtual stored atOnce with
    ⟨alone, writesAlone, addedAlone, _⟩
  have file : tree.isFile (current.resolve (mapping.toComponent path)) = true := by
    rw [Memory.Tree.isFile_eq_isSome, Memory.Tree.read_eq_ok.mp stored]
    rfl
  rw [closed.addFile_addFile file added, addedAlone] at addedAgain
  cases addedAgain
  exact ⟨written, _, writes, writesAgain, writesAlone⟩

end Write

/-- If a script lasts, writing another one over it is the same as writing the other one
at once, in the component and in a host that holds it. If it does not, the next
script goes into another block, and it can be written nowhere exactly if no other
element can make a script. -/
theorem lastWrite_wins {document script changed : String} {block : Block}
    (selected : (outline document.toList).scriptBlock? = some block)
    (notSelfClosed : block.ending ≠ .selfClosed)
    (plain : ¬HoldsEndTag "script".toList script.toList)
    (wrote : withScript? document script = some changed) :
    (Lasts script.toList block → ∀ other,
      withScript? changed other = withScript? document other ∧
      ∀ (store : Memory.Store) (mapping : Mapping) (path : String), Memory.Reachable store →
        mapping.isVirtual path = true →
        (Memory.host store.current).read (mapping.toComponent path) store.tree = .ok document →
        ∃ written overwritten,
          ((Memory.host store.current).view mapping).write path script store.tree =
            .ok () written ∧
          ((Memory.host store.current).view mapping).write path other written =
            .ok () overwritten ∧
          ((Memory.host store.current).view mapping).write path other store.tree =
            .ok () overwritten) ∧
    (¬Lasts script.toList block →
      (∀ next, (outline changed.toList).scriptBlock? = some next → next.start ≠ block.start) ∧
      ∀ other, withScript? changed other = none ↔
        (pieces document.toList).countP Piece.makesScript = 1) := by
  constructor
  · intro lasts other
    have same := withScript?_withScript? selected notSelfClosed ⟨plain, lasts⟩ wrote other
    refine ⟨same, ?_⟩
    intro store mapping path reachable virtual stored
    rcases exists_withScript? selected other with ⟨last, atOnce⟩
    exact exists_overwritten reachable.closed virtual stored wrote (same.trans atOnce) atOnce
  · intro fleeting
    rw [withScript?, Option.map_eq_some_iff] at wrote
    rcases wrote with ⟨text, wrote, rfl⟩
    rw [String.toList_ofList]
    constructor
    · intro next selectedThen
      exact start_ne_of_not_lasts selected notSelfClosed plain wrote fleeting
        (mem_blocks_of_scriptBlock? selectedThen).1
    · intro other
      rw [← scriptBlock?_eq_none_iff_of_not_lasts selected notSelfClosed plain wrote fleeting,
        withScript?, String.toList_ofList, withScriptText?, Option.map_eq_none_iff,
        Option.map_eq_none_iff]

/-- A script that lasts, and one that does not and leaves the plain script to be
written. -/
theorem lastWrite_wins_overSetup :
    ∃ block lasting fleeting,
      (outline "<script setup>a</script><script>b</script>".toList).scriptBlock? = some block ∧
      block.ending ≠ .selfClosed ∧ ¬HoldsEndTag "script".toList "let c".toList ∧
      withScript? "<script setup>a</script><script>b</script>" "let c" = some lasting ∧
      withScript? lasting "let d" =
        withScript? "<script setup>a</script><script>b</script>" "let d" ∧
      withScript? "<script setup>a</script><script>b</script>" " " = some fleeting ∧
      ∀ next, (outline fleeting.toList).scriptBlock? = some next → next.start ≠ block.start := by
  have selected :
      (outline "<script setup>a</script><script>b</script>".toList).scriptBlock? =
        some ⟨.scriptSetup, [⟨"setup", .flag⟩], ⟨"<script setup>".toList⟩, ['a'],
          .endTag "</script>".toList⟩ := by
    decide +kernel
  have plain : ∀ script ∈ ["let c", " "], ¬HoldsEndTag "script".toList script.toList := by
    decide +kernel
  rcases exists_withScript? selected "let c" with ⟨lasting, wrote⟩
  rcases exists_withScript? selected " " with ⟨fleeting, emptied⟩
  have wins := lastWrite_wins selected (by decide) (plain _ (by decide)) wrote
  have loses := lastWrite_wins selected (by decide) (plain _ (by decide)) emptied
  exact ⟨_, lasting, fleeting, selected, by decide, plain _ (by decide), wrote,
    (wins.1 (by decide) "let d").1, emptied, (loses.2 (by decide)).1⟩

/-- A component with one script loses it when it is emptied, so that the next write
fails. One with a setup script has its plain script overwritten. -/
theorem lastWrite_lost :
    ∃ block, (outline "<script>a</script>".toList).scriptBlock? = some block ∧
      block.ending ≠ .selfClosed ∧ ¬HoldsEndTag "script".toList "".toList ∧
      ¬HoldsEndTag "script".toList "c".toList ∧
      withScript? "<script>a</script>" "" = some "<script>\n</script>" ∧
      withScript? "<script>\n</script>" "c" = none ∧
      withScript? "<script>a</script>" "c" = some "<script>\nc</script>" ∧
      withScript? "<script setup>a</script><script>b</script>" "" =
        some "<script setup>\n</script><script>b</script>" ∧
      withScript? "<script setup>\n</script><script>b</script>" "c" =
        some "<script setup>\n</script><script>\nc</script>" ∧
      withScript? "<script setup>a</script><script>b</script>" "c" =
        some "<script setup>\nc</script><script>b</script>" :=
  ⟨⟨.script, [], ⟨"<script>".toList⟩, ['a'], .endTag "</script>".toList⟩, by decide +kernel⟩

end View

end ScriptView
