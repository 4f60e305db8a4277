import ScriptView.Proofs.Memory.Transfer
import ScriptView.Proofs.View.Stack

/-!
# Directories seen through a view

A view makes and lists directories under the paths that it is given, but asks for
them and deletes them under the paths of components. For a path that is not virtual
this is the same. A virtual path stands for two places, its own and that of its
component, and what the view says of a directory depends on both.
-/

namespace ScriptView

namespace Memory.Tree

variable {tree : Tree} {location : Location}

theorem exists_list_iff :
    (∃ entries, tree.list location = .ok entries) ↔ tree.isDirectory location = true := by
  rw [list]
  constructor
  · intro listed
    obtain ⟨entries, answer⟩ := listed
    split at answer
    · assumption
    · contradiction
  · intro directory
    exact ⟨tree.entries location, if_pos directory⟩

/-- The root is the only directory that is still there when it was removed. -/
theorem Closed.isDirectory_removed {left : Tree} (closed : tree.Closed)
    (removed : tree.remove location = .ok left) :
    left.isDirectory location = true ↔ location = .root := by
  have itself : location.isAtOrBelow location = true :=
    Location.isAtOrBelow_iff.mpr (List.prefix_refl location)
  rw [isDirectory_remove removed, itself]
  constructor
  · intro still
    cases file : tree.isFile location with
    | true =>
        rw [closed.apart location file] at still
        contradiction
    | false =>
        rw [file] at still
        simp only [Bool.false_or, Bool.not_true, Bool.or_false, Bool.and_eq_true, beq_iff_eq]
          at still
        exact still.2
  · intro isRoot
    rw [isRoot, closed.root]
    simp

end Memory.Tree

namespace View

variable {current : Location} {tree : Memory.Tree} {mapping : Mapping} {path : String}

/-- What a view lists is what is a directory under the path that it is given. -/
theorem exists_list_view_iff :
    (∃ entries, ((Memory.host current).view mapping).list path tree = .ok entries) ↔
      tree.isDirectory (current.resolve path) = true := by
  rw [← Memory.Tree.exists_list_iff]
  change (∃ entries, (tree.list (current.resolve path)).map _ = .ok entries) ↔ _
  cases tree.list (current.resolve path) with
  | ok entries => exact ⟨fun _ => ⟨entries, rfl⟩, fun _ => ⟨_, rfl⟩⟩
  | error error =>
      constructor
      · intro listed
        obtain ⟨entries, answer⟩ := listed
        contradiction
      · intro listed
        obtain ⟨entries, answer⟩ := listed
        contradiction

/-- A view makes the directories on the way to a path, where it does not look for
those of a component. -/
theorem hasDirectory_of_makeDirectory {made : Memory.Tree} (closed : tree.Closed)
    (done : ((Memory.host current).view mapping).makeDirectory path tree = .ok () made) :
    ((Memory.host current).view mapping).hasDirectory path made = true ↔
      tree.isDirectory (current.resolve (mapping.toComponent path)) = true ∨
        current.resolve (mapping.toComponent path) <+: current.resolve path := by
  change Memory.change (fun tree =>
    if tree.isFile (current.resolve path) then .error (.alreadyExists _)
    else tree.addDirectories (current.resolve path)) tree = _ at done
  have added := Memory.eq_ok_of_change done
  split at added
  · contradiction
  · exact closed.isDirectory_made added _

/-- What a view says of a directory. It has the directory that it has made, and it has
the directories that it lists, unless the path is virtual; then it looks for the one of
the component instead, which may be another. A directory that it has deleted it has no
more, except for the root. -/
theorem directories_agree {store : Memory.Store} (reachable : Memory.Reachable store)
    (mapping : Mapping) (path : String) :
    (∀ made, ((Memory.host store.current).view mapping).makeDirectory path store.tree =
        .ok () made →
      (((Memory.host store.current).view mapping).hasDirectory path made = true ↔
        mapping.isVirtual path = false ∨
          store.tree.isDirectory (store.current.resolve (mapping.toComponent path)) = true ∨
          store.current.resolve (mapping.toComponent path) <+: store.current.resolve path)) ∧
    ((((Memory.host store.current).view mapping).hasDirectory path store.tree = true ↔
        ∃ entries, ((Memory.host store.current).view mapping).list path store.tree =
          .ok entries) ↔
      mapping.isVirtual path = false ∨
        store.tree.isDirectory (store.current.resolve (mapping.toComponent path)) =
          store.tree.isDirectory (store.current.resolve path)) ∧
    ∀ left, ((Memory.host store.current).view mapping).delete path store.tree = .ok () left →
      (((Memory.host store.current).view mapping).hasDirectory path left = true ↔
        store.current.resolve (mapping.toComponent path) = .root) := by
  have closed := reachable.closed
  have translated : mapping.isVirtual path = false →
      store.current.resolve (mapping.toComponent path) = store.current.resolve path := by
    intro plain
    rw [Mapping.toComponent_of_not_isVirtual plain]
  refine ⟨?_, ?_, ?_⟩
  · intro made done
    rw [hasDirectory_of_makeDirectory closed done]
    constructor
    · exact .inr
    · intro seen
      cases seen with
      | inl plain =>
          rw [translated plain]
          exact .inr (List.prefix_refl _)
      | inr seen => exact seen
  · rw [exists_list_view_iff]
    change (store.tree.isDirectory (store.current.resolve (mapping.toComponent path)) = true ↔ _) ↔ _
    rw [← Bool.eq_iff_iff]
    constructor
    · exact .inr
    · intro same
      cases same with
      | inl plain => rw [translated plain]
      | inr same => exact same
  · intro left done
    change Memory.change (·.remove (store.current.resolve (mapping.toComponent path)))
      store.tree = _ at done
    exact closed.isDirectory_removed (Memory.eq_ok_of_change done)

/-- A directory with the name of a component, under the path of its script. It is not
what is made and listed there, but it is what is found and deleted. -/
theorem directories_agree_onScript :
    ∃ store made left, Memory.Reachable store ∧
      Mapping.standard.isVirtual "/d/y.vue.ts" = true ∧
      ((Memory.host store.current).view .standard).makeDirectory "/d/y.vue.ts" store.tree =
        .ok () made ∧
      ((Memory.host store.current).view .standard).hasDirectory "/d/y.vue.ts" made = true ∧
      ((Memory.host store.current).view .standard).delete "/d/y.vue.ts" store.tree = .ok () left ∧
      ((Memory.host store.current).view .standard).hasDirectory "/d/y.vue.ts" left = false := by
  have start : ∃ store : Memory.Store, Memory.Reachable store ∧
      Mapping.standard.isVirtual "/d/y.vue.ts" = true ∧
      store.tree.isDirectory (store.current.resolve (Mapping.standard.toComponent "/d/y.vue.ts")) =
        true ∧
      store.current.resolve (Mapping.standard.toComponent "/d/y.vue.ts") ≠ .root ∧
      ((((Memory.host store.current).view .standard).makeDirectory "/d/y.vue.ts").left?
        store.tree).map Memory.Tree.filePaths = some [] ∧
      ((((Memory.host store.current).view .standard).delete "/d/y.vue.ts").left?
        store.tree).map Memory.Tree.filePaths = some [] := by
    refine ⟨_, .changed (.makeDirectory "/d/y.vue") .new, ?_⟩
    decide +kernel
  obtain ⟨store, reachable, virtual, directory, below, makes, deletes⟩ := start
  obtain ⟨made, makeDone, _⟩ := Action.exists_of_map_left? makes
  obtain ⟨left, deleteDone, _⟩ := Action.exists_of_map_left? deletes
  obtain ⟨found, _, gone⟩ := directories_agree reachable .standard "/d/y.vue.ts"
  refine ⟨store, made, left, reachable, virtual, makeDone, ?_, deleteDone, ?_⟩
  · exact (found made makeDone).mpr (.inr (.inl directory))
  · exact Bool.eq_false_iff.mpr fun still => below ((gone left deleteDone).mp still)

/-- A directory that is made and listed under the path of a script, and that the view
does not have; and a directory that the view has there and cannot list. -/
theorem made_unseen :
    ∃ store made, Memory.Reachable store ∧ Mapping.standard.flaw? = none ∧
      ((Memory.host store.current).view .standard).makeDirectory "/d/x.vue.ts" store.tree =
        .ok () made ∧
      ((Memory.host store.current).view .standard).hasDirectory "/d/x.vue.ts" made = false ∧
      ((Memory.host store.current).view .standard).list "/d/x.vue.ts" made = .ok [] ∧
      ((Memory.host store.current).view .standard).hasDirectory "/d/y.vue.ts" made = true ∧
      ((Memory.host store.current).view .standard).list "/d/y.vue.ts" made =
        .error (.directoryNotFound "/d/y.vue.ts") := by
  have start : ∃ store : Memory.Store, Memory.Reachable store ∧ Mapping.standard.flaw? = none ∧
      ((((Memory.host store.current).view .standard).makeDirectory "/d/x.vue.ts").left?
        store.tree).map (fun made =>
          (((Memory.host store.current).view .standard).hasDirectory "/d/x.vue.ts" made,
            ((Memory.host store.current).view .standard).list "/d/x.vue.ts" made,
            ((Memory.host store.current).view .standard).hasDirectory "/d/y.vue.ts" made,
            ((Memory.host store.current).view .standard).list "/d/y.vue.ts" made)) =
        some (false, .ok [], true, .error (.directoryNotFound "/d/y.vue.ts")) := by
    refine ⟨_, .changed (.makeDirectory "/d/y.vue") .new, ?_⟩
    decide +kernel
  obtain ⟨store, reachable, valid, makes⟩ := start
  obtain ⟨made, done, seen⟩ := Action.exists_of_map_left? makes
  simp only [Prod.mk.injEq] at seen
  exact ⟨store, made, reachable, valid, done, seen⟩

end View

end ScriptView
