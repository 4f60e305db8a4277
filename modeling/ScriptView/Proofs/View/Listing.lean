import Mathlib.Data.List.Nodup
import ScriptView.Proofs.Memory.Entries
import ScriptView.Proofs.View.Directory

/-!
# What a view lists

A view lists components under the paths of their scripts and leaves all other
paths as they are. A path that it lists for a file leads to the file through the
view, with one exception: a file that has the ending of scripts itself is hidden
behind the script of a component, and the path leads to that component or nowhere. A
directory that is named like a component is listed under another path than its own.
-/

namespace ScriptView

open Text

namespace View

variable {current : Location} {tree : Memory.Tree} {location : Location}

/-- What a view can read is what it says to be a file. -/
theorem exists_read_view_iff {mapping : Mapping} {path : String} :
    (∃ text, ((Memory.host current).view mapping).read path tree = .ok text) ↔
      ((Memory.host current).view mapping).hasFile path tree = true :=
  @exists_read_viewThrough_iff current [mapping] path tree

/-- A path is hidden behind the script of a component that is not there. -/
def Hidden (mapping : Mapping) (host : Host Memory.Tree) (path : String) (tree : Memory.Tree) :
    Prop :=
  mapping.isVirtual path = true ∧ host.hasFile (mapping.toComponent path) tree = false

/-- A file is found under its listed path unless its own path is hidden. -/
theorem hasFile_listed_iff (file : tree.isFile location = true) :
    ((Memory.host current).view .standard).hasFile (Mapping.standard.toVirtual location.text) tree =
        true ↔
      ¬Hidden .standard (Memory.host current) location.text tree := by
  have here : (Memory.host current).hasFile location.text tree = true := by
    change tree.isFile (current.resolve location.text) = true
    rw [Location.resolve_text]
    exact file
  change (Memory.host current).hasFile (Mapping.standard.toComponent
    (Mapping.standard.toVirtual location.text)) tree = true ↔ _
  cases ends : endsWith location.text Mapping.standard.component with
  | true =>
      rw [Mapping.toComponent_toVirtual _ ends]
      simp [Hidden, Mapping.isVirtual_of_endsWith ends, here]
  | false =>
      rw [Mapping.toVirtual_of_not_endsWith ends]
      cases virtual : Mapping.standard.isVirtual location.text with
      | true => simp [Hidden, virtual]
      | false =>
          rw [Mapping.toComponent_of_not_isVirtual virtual]
          simp [Hidden, virtual, here]

/-- A directory can be listed under its listed path exactly if its own path is no
component's, or the listed path is that of a directory too. -/
theorem exists_list_listed_iff (directory : tree.isDirectory location = true) :
    (∃ inner, ((Memory.host current).view .standard).list
        (Mapping.standard.toVirtual location.text) tree = .ok inner) ↔
      endsWith location.text Mapping.standard.component = false ∨
        (Memory.host current).hasDirectory
          (location.text ++ Mapping.standard.script) tree = true := by
  rw [exists_list_view_iff]
  cases ends : endsWith location.text Mapping.standard.component with
  | true =>
      rw [Mapping.toVirtual_of_endsWith ends]
      exact ⟨.inr, fun either => either.resolve_left (by decide)⟩
  | false =>
      rw [Mapping.toVirtual_of_not_endsWith ends, Location.resolve_text]
      exact ⟨fun _ => .inl rfl, fun _ => directory⟩

/-- The paths that a view lists are all different exactly if the directory does not hold
a component and something that has the path of its script. -/
theorem nodup_listed_iff {entries : List Entry} (distinct : (entries.map Entry.path).Nodup) :
    ((entries.map (rename .standard)).map Entry.path).Nodup ↔
      ∀ component ∈ entries, endsWith component.path Mapping.standard.component = true →
        ∀ other ∈ entries, other.path ≠ component.path ++ Mapping.standard.script := by
  have renamed : (entries.map (rename .standard)).map Entry.path =
      (entries.map Entry.path).map Mapping.standard.toVirtual := by
    rw [List.map_map, List.map_map]
    rfl
  rw [renamed, List.nodup_map_iff_inj_on distinct]
  simp only [List.forall_mem_map]
  constructor
  · intro injective component member ends other otherMember isScript
    have same := injective component member other otherMember
      (Mapping.toVirtual_eq_iff.mpr (.inr (.inl ⟨ends, isScript⟩)))
    rw [← same] at isScript
    rw [isScript, Mapping.endsWith_append_script] at ends
    contradiction
  · intro apart left leftMember right rightMember same
    rcases Mapping.toVirtual_eq_iff.mp same with equal | ⟨ends, isScript⟩ | ⟨ends, isScript⟩
    · exact equal
    · exact absurd isScript (apart left leftMember ends right rightMember)
    · exact absurd isScript (apart right rightMember ends left leftMember)

/-- A listing through a view is the listing of a directory with the paths renamed. -/
theorem exists_originals {path : String} {entries : List Entry}
    (listed : ((Memory.host current).view .standard).list path tree = .ok entries) :
    (Memory.host current).list path tree = .ok (tree.entries (current.resolve path)) ∧
      entries = (tree.entries (current.resolve path)).map (rename .standard) := by
  change ((tree.list (current.resolve path)).map _ : Except Error (List Entry)) = _ at listed
  change tree.list (current.resolve path) = _ ∧ _
  rw [Memory.Tree.list] at listed ⊢
  cases directory : tree.isDirectory (current.resolve path) with
  | true =>
      rw [directory, if_pos rfl] at listed
      rw [if_pos rfl]
      cases listed
      exact ⟨rfl, rfl⟩
  | false =>
      rw [directory, if_neg Bool.false_ne_true] at listed
      contradiction

/-- What is listed through a view can be opened through it under the listed path: a file
exactly unless its own path is hidden, and a directory exactly if its own path is no
component's or the listed path is that of a directory too. No path is listed twice
exactly unless a component stands beside something that has the path of its script. -/
theorem opens_listed {path : String} {entries : List Entry}
    (listed : ((Memory.host current).view .standard).list path tree = .ok entries) :
    ∃ originals, (Memory.host current).list path tree = .ok originals ∧
      entries = originals.map (rename .standard) ∧
      (∀ entry ∈ originals, entry.isFile = true →
        (((Memory.host current).view .standard).hasFile (rename .standard entry).path tree = true ↔
          ¬Hidden .standard (Memory.host current) entry.path tree) ∧
        ((∃ text, ((Memory.host current).view .standard).read (rename .standard entry).path tree =
            .ok text) ↔
          ¬Hidden .standard (Memory.host current) entry.path tree)) ∧
      (∀ entry ∈ originals, entry.isDirectory = true →
        ((∃ inner, ((Memory.host current).view .standard).list
            (rename .standard entry).path tree = .ok inner) ↔
          endsWith entry.path Mapping.standard.component = false ∨
            (Memory.host current).hasDirectory
              (entry.path ++ Mapping.standard.script) tree = true)) ∧
      ((entries.map Entry.path).Nodup ↔
        ∀ component ∈ originals, endsWith component.path Mapping.standard.component = true →
          ∀ other ∈ originals, other.path ≠ component.path ++ Mapping.standard.script) := by
  obtain ⟨answer, rfl⟩ := exists_originals listed
  have isEntry : ∀ entry ∈ tree.entries (current.resolve path),
      ∃ location, tree.entryAt location = entry := by
    intro entry member
    rw [Memory.Tree.entries_eq_map, List.mem_map] at member
    obtain ⟨location, _, same⟩ := member
    exact ⟨location, same⟩
  refine ⟨_, answer, rfl, ?_, ?_, ?_⟩
  · intro entry member file
    obtain ⟨location, rfl⟩ := isEntry entry member
    rw [exists_read_view_iff]
    exact ⟨hasFile_listed_iff file, hasFile_listed_iff file⟩
  · intro entry member directory
    obtain ⟨location, rfl⟩ := isEntry entry member
    exact exists_list_listed_iff directory
  · apply nodup_listed_iff
    exact Memory.Tree.nodup_paths tree _

/-- A component, a file that is hidden because it has no component beside it, and a
directory. -/
theorem opens_listed_besideHidden :
    ∃ store : Memory.Store, Memory.Reachable store ∧
      ((Memory.host store.current).view .standard).list "/d" store.tree =
        .ok [⟨"/d/a.vue.ts", true, false, false⟩, ⟨"/d/b.vue.ts", true, false, false⟩,
          ⟨"/d/e", false, true, false⟩] ∧
      ((Memory.host store.current).list "/d" store.tree =
        .ok [⟨"/d/a.vue", true, false, false⟩, ⟨"/d/b.vue.ts", true, false, false⟩,
          ⟨"/d/e", false, true, false⟩]) ∧
      (∃ text, ((Memory.host store.current).view .standard).read "/d/a.vue.ts" store.tree =
        .ok text) ∧
      (∃ inner, ((Memory.host store.current).view .standard).list "/d/e" store.tree = .ok inner) ∧
      ["/d/a.vue.ts", "/d/b.vue.ts", "/d/e"].Nodup := by
  have start : ∃ store : Memory.Store, Memory.Reachable store ∧
      ((Memory.host store.current).view .standard).list "/d" store.tree =
        .ok [⟨"/d/a.vue.ts", true, false, false⟩, ⟨"/d/b.vue.ts", true, false, false⟩,
          ⟨"/d/e", false, true, false⟩] ∧
      (Memory.host store.current).list "/d" store.tree =
        .ok [⟨"/d/a.vue", true, false, false⟩, ⟨"/d/b.vue.ts", true, false, false⟩,
          ⟨"/d/e", false, true, false⟩] ∧
      Mapping.standard.isVirtual "/d/a.vue" = false ∧ endsWith "/d/e" ".vue" = false := by
    refine ⟨_, .changed (.makeDirectory "/d/e") (.changed (.write "/d/b.vue.ts" "")
      (.changed (.write "/d/a.vue" "") .new)), ?_⟩
    decide +kernel
  obtain ⟨store, reachable, listed, answer, notVirtual, notComponent⟩ := start
  obtain ⟨originals, answerToo, _, files, directories, distinct⟩ := opens_listed listed
  cases answer.symm.trans answerToo
  refine ⟨store, reachable, listed, answer, ?_, ?_, ?_⟩
  · apply (files _ List.mem_cons_self rfl).2.mpr
    rintro ⟨virtual, _⟩
    rw [notVirtual] at virtual
    contradiction
  · exact (directories ⟨"/d/e", false, true, false⟩ (by decide) rfl).mpr (.inl notComponent)
  · apply distinct.mpr
    decide +kernel

/-- A file that is listed and not found, a directory that is listed and cannot be listed
itself, and a path that is listed twice. -/
theorem listed_unopened :
    ∃ (store : Memory.Store) (entries : List Entry), Memory.Reachable store ∧
      ((Memory.host store.current).view .standard).list "/d" store.tree = .ok entries ∧
      (∃ entry ∈ entries, entry.isFile = true ∧
        ((Memory.host store.current).view .standard).hasFile entry.path store.tree = false ∧
        ((Memory.host store.current).view .standard).read entry.path store.tree =
          .error (.fileNotFound "/d/x.vue")) ∧
      (∃ entry ∈ entries, entry.isDirectory = true ∧
        ((Memory.host store.current).view .standard).list entry.path store.tree =
          .error (.directoryNotFound "/d/z.vue.ts")) ∧
      ¬(entries.map Entry.path).Nodup := by
  refine ⟨_, [⟨"/d/x.vue.ts", true, false, false⟩, ⟨"/d/y.vue.ts", true, false, false⟩,
      ⟨"/d/y.vue.ts", true, false, false⟩, ⟨"/d/z.vue.ts", false, true, false⟩],
    .changed (.makeDirectory "/d/z.vue") (.changed (.write "/d/y.vue.ts" "")
      (.changed (.write "/d/y.vue" "") (.changed (.write "/d/x.vue.ts" "") .new))), ?_⟩
  decide +kernel

end View

end ScriptView
