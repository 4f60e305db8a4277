import ScriptView.Proofs.Glob.Literal
import ScriptView.Proofs.Memory.Transfer

/-!
# Relative patterns

A relative pattern is put behind the written form of the current directory, and the
whole is matched against the written forms of places. If nothing in the name of the
directory is special in a pattern, this finds what the pattern matches on the way from
the directory down. A special character in that name is taken for a part of the
pattern.
-/

namespace ScriptView

/-- A pattern that leads down from a directory: it is made of names, with slashes
between them. Behind an exclamation mark it would take paths out. -/
structure IsRelativePattern (pattern : String) : Prop where
  names : ∀ segment ∈ Location.segments pattern.toList, IsName (String.ofList segment)
  noBackslash : '\\' ∉ pattern.toList
  included : pattern.toList.head? ≠ some '!'

namespace Location

/-- A relative pattern is put behind the directory and a slash. -/
theorem text_resolve_of_isRelativePattern {pattern : String} (relative : IsRelativePattern pattern)
    (current : Location) : (current.resolve pattern).text = current.belowText ++ pattern := by
  obtain ⟨names, nonempty, split, isRow⟩ := exists_intercalate relative.noBackslash relative.names
  have notLeading : pattern.toList.head?.any isSeparator = false := by
    cases chars : pattern.toList with
    | nil => rfl
    | cons c rest =>
        apply Bool.eq_false_iff.mpr
        intro separates
        have nameless := relative.names [] (by
          rw [chars, segments, if_pos (by simpa using separates)]
          exact List.mem_cons_self)
        exact nameless.1 rfl
  have written : pattern = String.intercalate "/" (names.map Name.text) := by
    apply String.toList_injective
    have slash : "/".toList = ['/'] := rfl
    rw [String.toList_intercalate, List.map_map, slash]
    exact isRow
  rw [resolve, notLeading, if_neg Bool.false_ne_true, split, foldl_enter_names,
    text_append current nonempty, ← written]

end Location

namespace Memory

open Glob (stepLimit)

/-- A pattern without an exclamation mark lets in what it accepts. -/
theorem glob_single {current : Location} {pattern : String}
    (included : pattern.toList.head? ≠ some '!') (tree : Tree) :
    (host current).glob [pattern] tree =
      tree.filePaths.filter (Glob.accepts (current.resolve pattern).text) := by
  have letsIn : Glob.Selection.excluded? pattern = none := by
    rw [Glob.Selection.excluded?]
    split
    · next starts =>
      rw [starts] at included
      exact absurd rfl included
    · rfl
  have single : Glob.Selection.ofPatterns [pattern] = ⟨[pattern], []⟩ := by
    simp [Glob.Selection.ofPatterns, letsIn]
  change tree.filePaths.filter ((Glob.Selection.ofPatterns [pattern]).map
    fun pattern => (current.resolve pattern).text).selects = _
  rw [single]
  congr 1
  funext path
  simp [Glob.Selection.map, Glob.Selection.selects, Glob.Selection.excludes]

/-- If the name of the current directory has no special character, a relative pattern
finds the files below it that it accepts on their way from there, unless a search is cut
short. -/
theorem glob_relative {store : Store} (reachable : Reachable store) {pattern : String}
    (relative : IsRelativePattern pattern)
    (plain : Glob.hasSpecial store.current.text = false)
    (within : ∀ path ∈ store.tree.filePaths,
      (Glob.outcome (store.current.resolve pattern).text path).steps ≤ stepLimit)
    (withinBelow : ∀ file ∈ store.tree.filesBelow store.current,
      (Glob.outcome pattern (file.textBelow store.current)).steps ≤ stepLimit) :
    (host store.current).glob [pattern] store.tree =
      ((store.tree.filesBelow store.current).filter fun file =>
        Glob.accepts pattern (file.textBelow store.current)).map Location.text := by
  have literal := Glob.isLiteral_belowText plain
  have resolved := Location.text_resolve_of_isRelativePattern relative store.current
  rw [resolved] at within
  rw [glob_single relative.included, Tree.filePaths, List.filter_map, Tree.filesBelow,
    List.filter_filter, resolved]
  congr 1
  apply List.filter_congr
  intro file member
  have isFile : store.tree.isFile file = true := by
    rw [Tree.isFile, Std.ExtTreeMap.contains_iff_mem]
    exact Std.ExtTreeMap.mem_keys.mp member
  rw [Function.comp_apply]
  cases below : file.isBelow store.current with
  | true =>
      have written := Location.text_eq_append_textBelow below
      have withinText := within file.text (List.mem_map_of_mem member)
      have withinRest := withinBelow file (Tree.mem_filesBelow.mpr ⟨isFile, below⟩)
      rw [written] at withinText
      rw [written, Glob.accepts_append literal withinText withinRest, Bool.and_true]
  | false =>
      rw [Bool.and_false]
      apply Bool.eq_false_iff.mpr
      intro accepted
      obtain ⟨tail, written⟩ := Glob.exists_tail_of_accepts literal accepted
      have notRoot : file ≠ .root := by
        intro isRoot
        have root := reachable.closed.root
        rw [isRoot] at isFile
        rw [reachable.closed.apart _ isFile] at root
        contradiction
      rw [Location.isBelow_of_text_eq written notRoot] at below
      contradiction

/-- A current directory with a plain name, with a file beside it that is not found. -/
theorem glob_relative_plain :
    ∃ store, Reachable store ∧ IsRelativePattern "**/*.{ts,vue}" ∧
      Glob.hasSpecial store.current.text = false ∧
      (host store.current).glob ["**/*.{ts,vue}"] store.tree =
        ((store.tree.filesBelow store.current).filter fun file =>
          Glob.accepts "**/*.{ts,vue}" (file.textBelow store.current)).map Location.text ∧
      (host store.current).glob ["**/*.{ts,vue}"] store.tree = ["/a/b/c.vue", "/a/x.ts"] := by
  have relative : IsRelativePattern "**/*.{ts,vue}" :=
    ⟨by decide +kernel, by decide +kernel, by decide +kernel⟩
  have start : ∃ store : Store, Reachable store ∧ Glob.hasSpecial store.current.text = false ∧
      (∀ path ∈ store.tree.filePaths,
        (Glob.outcome (store.current.resolve "**/*.{ts,vue}").text path).steps ≤ stepLimit) ∧
      (∀ file ∈ store.tree.filesBelow store.current,
        (Glob.outcome "**/*.{ts,vue}" (file.textBelow store.current)).steps ≤ stepLimit) ∧
      (host store.current).glob ["**/*.{ts,vue}"] store.tree = ["/a/b/c.vue", "/a/x.ts"] := by
    refine ⟨_, .entered "/a" (.changed (.write "/x.ts" "") (.changed (.write "/a/b/c.vue" "")
      (.changed (.write "/a/x.ts" "") .new))), ?_⟩
    decide +kernel
  obtain ⟨store, reachable, plain, within, withinBelow, found⟩ := start
  exact ⟨store, reachable, relative, plain,
    glob_relative reachable relative plain within withinBelow, found⟩

/-- A current directory whose name is a class of characters in a pattern. What is found is
beside it, and what is in it is not found. -/
theorem glob_beside_current :
    ∃ store, Reachable store ∧ IsRelativePattern "*.ts" ∧
      store.current.text = "/app/[id]" ∧
      (∀ path ∈ store.tree.filePaths,
        (Glob.outcome (store.current.resolve "*.ts").text path).steps ≤ stepLimit) ∧
      (∀ file ∈ store.tree.filesBelow store.current,
        (Glob.outcome "*.ts" (file.textBelow store.current)).steps ≤ stepLimit) ∧
      ((store.tree.filesBelow store.current).filter fun file =>
        Glob.accepts "*.ts" (file.textBelow store.current)).map Location.text =
          ["/app/[id]/x.ts"] ∧
      (host store.current).glob ["*.ts"] store.tree = ["/app/i/x.ts"] := by
  have relative : IsRelativePattern "*.ts" :=
    ⟨by decide +kernel, by decide +kernel, by decide +kernel⟩
  have start : ∃ store : Store, Reachable store ∧ store.current.text = "/app/[id]" ∧
      (∀ path ∈ store.tree.filePaths,
        (Glob.outcome (store.current.resolve "*.ts").text path).steps ≤ stepLimit) ∧
      (∀ file ∈ store.tree.filesBelow store.current,
        (Glob.outcome "*.ts" (file.textBelow store.current)).steps ≤ stepLimit) ∧
      ((store.tree.filesBelow store.current).filter fun file =>
        Glob.accepts "*.ts" (file.textBelow store.current)).map Location.text =
          ["/app/[id]/x.ts"] ∧
      (host store.current).glob ["*.ts"] store.tree = ["/app/i/x.ts"] := by
    refine ⟨_, .entered "/app/[id]" (.changed (.write "/app/i/x.ts" "")
      (.changed (.write "/app/[id]/x.ts" "") .new)), ?_⟩
    decide +kernel
  obtain ⟨store, reachable, run⟩ := start
  exact ⟨store, reachable, relative, run⟩

end Memory

end ScriptView
