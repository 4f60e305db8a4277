import Mathlib.Data.List.Perm.Subperm
import ScriptView.Proofs.Memory.Entries
import ScriptView.Proofs.Memory.Transfer

/-!
# Walking through a tree in memory

A walk lists a directory, and behind each directory that is listed it lists that one. The
listings of a flat tree are computed from the names alone, so that a walk could miss
something or come to it twice. In a closed tree it does not: what is below a directory is
below exactly one of the places that the directory lists. A walk from the root ends, and
it has come to everything that is there once.
-/

namespace ScriptView

/-- A directory, as it is told about in a listing. -/
def Entry.directory (path : String) : Entry where
  path := path
  isFile := false
  isDirectory := true

/-- A file, as it is told about in a listing. -/
def Entry.file (path : String) : Entry where
  path := path
  isFile := true
  isDirectory := false

/-! ## Walks -/

namespace Host

variable {σ : Type} {host : Host σ} {state : σ} {row visited other : List Entry}

/-- A walk through a row of entries ends, and these are the entries that it has visited.
Behind each directory it has visited what it found below that directory. -/
inductive Walks (host : Host σ) (state : σ) : List Entry → List Entry → Prop where
  | done : Walks host state [] []
  | pass {entry : Entry} {row visited : List Entry} (notDirectory : entry.isDirectory = false)
      (rest : Walks host state row visited) : Walks host state (entry :: row) (entry :: visited)
  | descend {entry : Entry} {row inner below visited : List Entry}
      (isDirectory : entry.isDirectory = true) (listed : host.list entry.path state = .ok inner)
      (inside : Walks host state inner below) (rest : Walks host state row visited) :
      Walks host state (entry :: row) (entry :: (below ++ visited))

/-- A walk can end in one way only. -/
theorem Walks.unique (walks : host.Walks state row visited)
    (walksToo : host.Walks state row other) : visited = other := by
  induction walks generalizing other with
  | done =>
      cases walksToo
      rfl
  | pass notDirectory _ ih =>
      cases walksToo with
      | pass _ restToo => rw [ih restToo]
      | descend isDirectory _ _ _ =>
          rw [notDirectory] at isDirectory
          contradiction
  | descend isDirectory listed _ _ insideIH restIH =>
      cases walksToo with
      | pass notDirectory _ =>
          rw [isDirectory] at notDirectory
          contradiction
      | descend _ listedToo insideToo restToo =>
          rw [listed] at listedToo
          cases listedToo
          rw [insideIH insideToo, restIH restToo]

/-- The entries of a row, each directory with what a walk of some depth finds below it. -/
def expanded (host : Host σ) (state : σ) (depth : Nat) (row : List Entry) : List Entry :=
  row.flatMap fun entry =>
    entry :: if entry.isDirectory && !entry.isLink then host.walk state depth entry.path else []

theorem walk_succ {path : String} {depth : Nat} (listed : host.list path state = .ok row) :
    host.walk state (depth + 1) path = host.expanded state depth row := by
  rw [walk, listed]
  rfl

end Host

namespace Memory

open Host (Walks)

namespace Tree

variable {tree : Tree} {current directory location place top : Location} {row : List Location}
  {visited : List Entry}

theorem list_text (directory : tree.isDirectory location = true) :
    (host current).list location.text tree = .ok ((tree.within location).map tree.entryAt) := by
  change tree.list (current.resolve location.text) = _
  rw [Location.resolve_text, Tree.list, if_pos directory]
  rfl

theorem Closed.list_root (closed : tree.Closed) (current : Location) :
    (host current).list "/" tree = .ok ((tree.within .root).map tree.entryAt) := by
  have listed := @list_text tree current .root closed.root
  rwa [Location.text_root] at listed

theorem mem_places_of_mem_within (listed : place ∈ tree.within directory) : place ∈ tree.places :=
  mem_places.mpr (mem_within.mp listed).2

/-- Places of which none is at or below another. -/
def Siblings (row : List Location) : Prop :=
  row.Pairwise fun first second => ¬first <+: second ∧ ¬second <+: first

/-- What a directory lists are siblings. -/
theorem siblings_within (tree : Tree) (directory : Location) :
    Siblings (tree.within directory) := by
  apply (nodup_of_ordered (ordered_within tree directory)).imp_of_mem
  intro first second firstMember secondMember differs
  obtain ⟨⟨firstName, isFirst⟩, -⟩ := mem_within.mp firstMember
  obtain ⟨⟨secondName, isSecond⟩, -⟩ := mem_within.mp secondMember
  have lengths : first.length = second.length := by
    rw [isFirst, isSecond, List.length_append, List.length_append]
    rfl
  exact ⟨fun above => differs (above.eq_of_length lengths),
    fun above => differs (above.eq_of_length lengths.symm).symm⟩

namespace Closed

variable (closed : tree.Closed)

include closed

/-- What lies above something that is there is there. -/
theorem mem_places_of_prefix (above : top <+: place) (isThere : place ∈ tree.places) :
    top ∈ tree.places := by
  rw [mem_places] at isThere ⊢
  cases isThere with
  | inl isDirectory => exact .inl (closed.isDirectory_of_prefix above isDirectory)
  | inr isFile =>
      by_cases same : top = place
      · rw [same]
        exact .inr isFile
      · exact .inl (closed.isDirectory_above above same isFile)

/-- Nothing that is there is below a file. -/
theorem eq_of_prefix (above : top <+: place) (isThere : place ∈ tree.places)
    (notDirectory : tree.isDirectory top = false) : place = top := by
  by_contra differs
  have isDirectory : tree.isDirectory top = true := by
    cases mem_places.mp isThere with
    | inl isDirectory => exact closed.isDirectory_of_prefix above isDirectory
    | inr isFile => exact closed.isDirectory_above above (Ne.symm differs) isFile
  rw [notDirectory] at isDirectory
  contradiction

/-- What is at or below a directory is the directory or at or below something that it
lists. -/
theorem prefix_iff_within (isThere : place ∈ tree.places) :
    top <+: place ↔ place = top ∨ ∃ child ∈ tree.within top, child <+: place := by
  constructor
  · intro above
    obtain ⟨rest, rfl⟩ := above
    cases rest with
    | nil => exact .inl (List.append_nil top)
    | cons name rest =>
        right
        have child : top ++ [name] <+: top ++ name :: rest := ⟨rest, by simp⟩
        have isThereToo := closed.mem_places_of_prefix child isThere
        exact ⟨top ++ [name], mem_within.mpr ⟨⟨name, rfl⟩, mem_places.mp isThereToo⟩, child⟩
  · intro inside
    cases inside with
    | inl same =>
        subst same
        exact List.prefix_refl place
    | inr below =>
        obtain ⟨child, member, above⟩ := below
        obtain ⟨⟨name, rfl⟩, -⟩ := mem_within.mp member
        exact (List.prefix_append top [name]).trans above

end Closed

/-- A row of places has, each once, all that is there at or below some places. -/
structure Covers (tree : Tree) (row places : List Location) : Prop where
  distinct : places.Nodup
  mem_iff : ∀ place, place ∈ places ↔ place ∈ tree.places ∧ ∃ top ∈ row, top <+: place

namespace Covers

variable {inner places : List Location}

theorem nil (tree : Tree) : tree.Covers [] [] where
  distinct := List.nodup_nil
  mem_iff place := by simp

/-- What is at or below some places is determined but for its order. -/
theorem perm (covers : tree.Covers row places) (coversToo : tree.Covers row inner) :
    places.Perm inner := by
  apply (List.perm_ext_iff_of_nodup covers.distinct coversToo.distinct).mpr
  intro place
  rw [covers.mem_iff, coversToo.mem_iff]

/-- Nothing at or below a sibling is at or below the others. -/
theorem not_mem_of_prefix (covers : tree.Covers row places) (above : top <+: place)
    (apart : ∀ other ∈ row, ¬top <+: other ∧ ¬other <+: top) : place ∉ places := by
  intro member
  obtain ⟨-, other, isOther, otherAbove⟩ := (covers.mem_iff place).mp member
  cases List.prefix_or_prefix_of_prefix above otherAbove with
  | inl isAbove => exact (apart other isOther).1 isAbove
  | inr isBelow => exact (apart other isOther).2 isBelow

theorem cons_file (covers : tree.Covers row places) (closed : tree.Closed)
    (isThere : top ∈ tree.places) (notDirectory : tree.isDirectory top = false)
    (apart : ∀ other ∈ row, ¬top <+: other ∧ ¬other <+: top) :
    tree.Covers (top :: row) (top :: places) where
  distinct :=
    List.nodup_cons.mpr ⟨covers.not_mem_of_prefix (List.prefix_refl top) apart, covers.distinct⟩
  mem_iff place := by
    rw [List.mem_cons, covers.mem_iff, List.exists_mem_cons_iff, and_or_left]
    apply or_congr_left
    constructor
    · intro same
      rw [same]
      exact ⟨isThere, List.prefix_refl top⟩
    · intro inside
      exact closed.eq_of_prefix inside.2 inside.1 notDirectory

theorem cons_directory (covers : tree.Covers row places) (closed : tree.Closed)
    (isThere : top ∈ tree.places) (covered : tree.Covers (tree.within top) inner)
    (apart : ∀ other ∈ row, ¬top <+: other ∧ ¬other <+: top) :
    tree.Covers (top :: row) (top :: (inner ++ places)) where
  distinct := by
    have below : ∀ place ∈ inner, top <+: place ∧ place ≠ top := by
      intro place member
      obtain ⟨isThereToo, child, isChild, above⟩ := (covered.mem_iff place).mp member
      obtain ⟨⟨name, rfl⟩, -⟩ := mem_within.mp isChild
      refine ⟨(List.prefix_append top [name]).trans above, ?_⟩
      intro same
      rw [same] at above
      exact absurd above.length_le (by simp)
    rw [List.nodup_cons, List.mem_append, not_or]
    refine ⟨⟨?_, covers.not_mem_of_prefix (List.prefix_refl top) apart⟩, ?_⟩
    · intro member
      exact (below top member).2 rfl
    · apply List.nodup_append.mpr ⟨covered.distinct, covers.distinct, ?_⟩
      intro first firstMember second secondMember same
      rw [← same] at secondMember
      exact covers.not_mem_of_prefix (below first firstMember).1 apart secondMember
  mem_iff place := by
    rw [List.mem_cons, List.mem_append, covers.mem_iff, covered.mem_iff,
      List.exists_mem_cons_iff, and_or_left, ← or_assoc]
    apply or_congr_left
    constructor
    · intro inside
      cases inside with
      | inl same =>
          rw [same]
          exact ⟨isThere, List.prefix_refl top⟩
      | inr below => exact ⟨below.1, (closed.prefix_iff_within below.1).mpr (.inr below.2)⟩
    · intro inside
      cases (closed.prefix_iff_within inside.1).mp inside.2 with
      | inl same => exact .inl same
      | inr below => exact .inr ⟨inside.1, below⟩

end Covers

namespace Closed

variable (closed : tree.Closed)

include closed

/-- A walk through siblings visits what is at or below them. -/
theorem exists_covers_of_walks (siblings : Siblings row)
    (areThere : ∀ place ∈ row, place ∈ tree.places)
    (walks : Walks (host current) tree (row.map tree.entryAt) visited) :
    ∃ places, visited = places.map tree.entryAt ∧ tree.Covers row places := by
  generalize entries : row.map tree.entryAt = listed at walks
  induction walks generalizing row with
  | done =>
      rw [List.map_eq_nil_iff] at entries
      rw [entries]
      exact ⟨[], rfl, .nil tree⟩
  | pass notDirectory _ ih =>
      obtain ⟨top, others, rfl, rfl, isRest⟩ := List.map_eq_cons_iff.mp entries
      obtain ⟨apart, siblingsRest⟩ := List.pairwise_cons.mp siblings
      obtain ⟨isThere, areThereRest⟩ := List.forall_mem_cons.mp areThere
      obtain ⟨places, rfl, covers⟩ := ih siblingsRest areThereRest isRest
      exact ⟨top :: places, rfl, covers.cons_file closed isThere notDirectory apart⟩
  | descend isDirectory listed _ _ insideIH restIH =>
      obtain ⟨top, others, rfl, rfl, isRest⟩ := List.map_eq_cons_iff.mp entries
      obtain ⟨apart, siblingsRest⟩ := List.pairwise_cons.mp siblings
      obtain ⟨isThere, areThereRest⟩ := List.forall_mem_cons.mp areThere
      obtain ⟨places, rfl, covers⟩ := restIH siblingsRest areThereRest isRest
      have listedToo := (list_text isDirectory).symm.trans listed
      obtain ⟨inner, rfl, covered⟩ := insideIH (siblings_within tree top)
        (fun place => mem_places_of_mem_within) (Except.ok.inj listedToo)
      exact ⟨top :: (inner ++ places), by simp, covers.cons_directory closed isThere covered apart⟩

end Closed

/-! ## How deep a walk goes -/

/-- A walk through a row visits what it finds below the directories of the row. -/
theorem walks_expanded_of_directories {depth : Nat}
    (inside : ∀ top ∈ row, tree.isDirectory top = true →
      Walks (host current) tree ((tree.within top).map tree.entryAt)
        ((host current).walk tree depth top.text)) :
    Walks (host current) tree (row.map tree.entryAt)
      ((host current).expanded tree depth (row.map tree.entryAt)) := by
  induction row with
  | nil => exact .done
  | cons top others ih =>
      obtain ⟨insideHere, insideRest⟩ := List.forall_mem_cons.mp inside
      have rest := ih insideRest
      rw [List.map_cons, Host.expanded, List.flatMap_cons]
      cases isDirectory : tree.isDirectory top with
      | false =>
          have notDirectory : (tree.entryAt top).isDirectory = false := isDirectory
          rw [notDirectory, Bool.false_and, if_neg Bool.false_ne_true]
          exact .pass notDirectory rest
      | true =>
          have directory : (tree.entryAt top).isDirectory = true := isDirectory
          have notLink : (tree.entryAt top).isLink = false := rfl
          rw [directory, notLink, Bool.not_false, Bool.and_true, if_pos rfl, List.cons_append]
          exact .descend directory (list_text isDirectory) (insideHere isDirectory) rest

namespace Closed

variable (closed : tree.Closed)

include closed

/-- A directory is less deep than there are directories, for all that are above it are
directories. -/
theorem length_lt_size (isDirectory : tree.isDirectory location = true) :
    location.length < tree.directories.size := by
  have inside : location.upward ⊆ tree.directories.toList := by
    intro place member
    have above := Location.mem_upward.mp member
    exact Std.ExtTreeSet.mem_toList.mpr (closed.isDirectory_of_prefix above isDirectory)
  have few := (location.nodup_upward.subperm inside).length_le
  rw [Location.length_upward, Std.ExtTreeSet.length_toList] at few
  exact few

/-- A walk that goes as deep as there are directories visits what a walk without a bound
visits. -/
theorem walks_expanded {depth : Nat}
    (deep : ∀ place ∈ row, tree.directories.size ≤ place.length + depth) :
    Walks (host current) tree (row.map tree.entryAt)
      ((host current).expanded tree depth (row.map tree.entryAt)) := by
  induction depth generalizing row with
  | zero =>
      apply walks_expanded_of_directories
      intro top member isDirectory
      have bound := closed.length_lt_size isDirectory
      have isDeep := deep top member
      omega
  | succ depth ih =>
      apply walks_expanded_of_directories
      intro top member isDirectory
      rw [Host.walk_succ (list_text isDirectory)]
      apply ih
      intro child isChild
      obtain ⟨⟨name, rfl⟩, -⟩ := mem_within.mp isChild
      have isDeep := deep top member
      rw [List.length_append, List.length_singleton]
      omega

end Closed

end Tree

/-! ## The walk from the root -/

/-- A listing is in strictly ascending order of the paths. -/
theorem pairwise_list {current : Location} {tree : Tree} {path : String} {entries : List Entry}
    (listed : (host current).list path tree = .ok entries) :
    entries.Pairwise fun first second => first.path < second.path := by
  change tree.list (current.resolve path) = .ok entries at listed
  rw [Tree.list] at listed
  split at listed
  · cases listed
    rw [Tree.entries_eq_map, List.pairwise_map]
    apply (Tree.ordered_within tree (current.resolve path)).imp
    intro first second less
    exact compareOfLessAndEq_eq_lt.mp less
  · contradiction

/-- The directories of a tree apart from the root, and its files, as they are told about. -/
def Tree.contents (tree : Tree) : List Entry :=
  (tree.directories.toList.filter (· != .root)).map (fun place => .directory place.text) ++
    tree.files.keys.map fun place => .file place.text

namespace Tree

variable {tree : Tree} {places : List Location} {location : Location}

theorem entryAt_of_isDirectory (closed : tree.Closed)
    (isDirectory : tree.isDirectory location = true) :
    tree.entryAt location = .directory location.text := by
  have notFile := closed.isFile_of_prefix (List.prefix_refl location) isDirectory
  rw [entryAt, isDirectory, notFile]
  rfl

theorem entryAt_of_isFile (closed : tree.Closed) (isFile : tree.isFile location = true) :
    tree.entryAt location = .file location.text := by
  rw [entryAt, isFile, closed.apart location isFile]
  rfl

/-- The directories of a tree apart from the root, and its files. -/
def belowRoot (tree : Tree) : List Location :=
  tree.directories.toList.filter (· != .root) ++ tree.files.keys

theorem mem_belowRoot_iff (closed : tree.Closed) :
    location ∈ tree.belowRoot ↔ location ∈ tree.places ∧ location ≠ .root := by
  have isFile_iff : location ∈ tree.files.keys ↔ tree.isFile location = true :=
    Std.ExtTreeMap.mem_keys
  have notRoot : tree.isFile location = true → location ≠ .root := by
    intro isFile isRoot
    have notDirectory := closed.apart location isFile
    rw [isRoot, closed.root] at notDirectory
    contradiction
  rw [belowRoot, List.mem_append, List.mem_filter, Std.ExtTreeSet.mem_toList, bne_iff_ne,
    isFile_iff, mem_places, or_and_right, and_iff_left_of_imp notRoot]
  rfl

theorem nodup_belowRoot (closed : tree.Closed) : tree.belowRoot.Nodup := by
  apply List.nodup_append.mpr
  refine ⟨(nodup_of_ordered Std.ExtTreeSet.ordered_toList).filter _,
    nodup_of_ordered Std.ExtTreeMap.ordered_keys, ?_⟩
  intro first firstMember second secondMember same
  have isDirectory := Std.ExtTreeSet.mem_toList.mp (List.mem_of_mem_filter firstMember)
  have notDirectory := closed.apart second (Std.ExtTreeMap.mem_keys.mp secondMember)
  rw [same] at isDirectory
  exact Bool.eq_false_iff.mp notDirectory isDirectory

/-- At or below the entries of the root is all that is there, but the root. -/
theorem covers_belowRoot (closed : tree.Closed) :
    tree.Covers (tree.within .root) tree.belowRoot where
  distinct := nodup_belowRoot closed
  mem_iff place := by
    rw [mem_belowRoot_iff closed]
    apply and_congr_right
    intro isThere
    constructor
    · intro notRoot
      exact ((closed.prefix_iff_within isThere).mp List.nil_prefix).resolve_left notRoot
    · intro below isRoot
      obtain ⟨child, isChild, above⟩ := below
      obtain ⟨⟨name, rfl⟩, -⟩ := mem_within.mp isChild
      rw [isRoot] at above
      exact absurd above.length_le (by simp [Location.root])

theorem map_entryAt_belowRoot (closed : tree.Closed) :
    tree.belowRoot.map tree.entryAt = tree.contents := by
  rw [belowRoot, contents, List.map_append]
  congr 1
  · apply List.map_congr_left
    intro place member
    have isDirectory := Std.ExtTreeSet.mem_toList.mp (List.mem_of_mem_filter member)
    exact entryAt_of_isDirectory closed isDirectory
  · apply List.map_congr_left
    intro place member
    exact entryAt_of_isFile closed (Std.ExtTreeMap.mem_keys.mp member)

/-- The files among the contents of a tree are those that it names. -/
theorem filter_contents (tree : Tree) :
    (tree.contents.filter Entry.isFile).map Entry.path = tree.filePaths := by
  rw [contents, List.filter_append, List.filter_map, List.filter_map]
  simp [Entry.directory, Entry.file, filePaths, Function.comp_def]

/-- A walk from the root ends, also if it is bounded. -/
theorem Closed.exists_walk (closed : tree.Closed) (current : Location) :
    ∃ places, tree.Covers (tree.within .root) places ∧
      Walks (host current) tree ((tree.within .root).map tree.entryAt)
        (places.map tree.entryAt) ∧
      ∀ depth, tree.depth ≤ depth →
        (host current).walk tree depth "/" = places.map tree.entryAt := by
  let entries := (tree.within .root).map tree.entryAt
  have listed : (host current).list "/" tree = .ok entries := closed.list_root current
  have walks : ∀ depth, tree.directories.size ≤ depth →
      Walks (host current) tree entries ((host current).expanded tree depth entries) := by
    intro depth deep
    apply closed.walks_expanded
    intro place _
    omega
  have ends := walks _ (Nat.le_refl _)
  obtain ⟨places, isVisited, covers⟩ := closed.exists_covers_of_walks
    (siblings_within tree .root) (fun place => mem_places_of_mem_within) ends
  rw [isVisited] at ends
  refine ⟨places, covers, ends, ?_⟩
  intro depth deep
  cases depth with
  | zero => contradiction
  | succ depth =>
      rw [Host.walk_succ listed]
      exact (walks depth (Nat.le_of_succ_le_succ deep)).unique ends

end Tree

/-- A walk from the root of a reachable tree ends, and in one way only; a bound for its
depth that is not below the number of directories changes nothing. It visits every
directory but the root and every file once, under its canonical path and for what it is.
Each listing on the way is in strictly ascending order. What is visited as a file can be
read under the path that was listed, and these paths are those of all files. -/
theorem walk_visits {store : Store} (reachable : Reachable store) :
    ∃ entries visited,
      (host store.current).list "/" store.tree = .ok entries ∧
      Walks (host store.current) store.tree entries visited ∧
      (∀ other, Walks (host store.current) store.tree entries other → other = visited) ∧
      (∀ depth, store.tree.depth ≤ depth →
        (host store.current).walk store.tree depth "/" = visited) ∧
      visited.Perm store.tree.contents ∧
      (visited.map Entry.path).Nodup ∧
      (∀ entry ∈ visited, IsCanonical entry.path) ∧
      (∀ path listed, (host store.current).list path store.tree = .ok listed →
        listed.Pairwise fun first second => first.path < second.path) ∧
      (∀ entry ∈ visited, entry.isFile = true →
        ∃ text, (host store.current).read entry.path store.tree = .ok text) ∧
      ((visited.filter Entry.isFile).map Entry.path).Perm store.tree.filePaths := by
  have closed := reachable.closed
  obtain ⟨places, covers, ends, bounded⟩ := closed.exists_walk store.current
  have contents : (places.map store.tree.entryAt).Perm store.tree.contents := by
    rw [← Tree.map_entryAt_belowRoot closed]
    exact (covers.perm (Tree.covers_belowRoot closed)).map _
  refine ⟨_, places.map store.tree.entryAt, closed.list_root store.current, ends, ?_, bounded,
    contents, ?_, ?_, ?_, ?_, ?_⟩
  · intro other otherEnds
    exact otherEnds.unique ends
  · rw [List.map_map]
    apply List.Pairwise.map (Entry.path ∘ store.tree.entryAt) ?_ covers.distinct
    intro first second differs same
    exact differs (Location.text_injective same)
  · intro entry member
    obtain ⟨place, -, rfl⟩ := List.mem_map.mp member
    exact Location.isCanonical_text place
  · intro path others listedToo
    exact pairwise_list listedToo
  · intro entry member isFile
    obtain ⟨place, -, rfl⟩ := List.mem_map.mp member
    have isFileHere : store.tree.isFile place = true := isFile
    rw [Tree.isFile_eq_isSome, Option.isSome_iff_exists] at isFileHere
    obtain ⟨text, found⟩ := isFileHere
    refine ⟨text, ?_⟩
    change store.tree.read (store.current.resolve place.text) = _
    rw [Location.resolve_text]
    exact Tree.read_eq_ok.mpr found
  · rw [← store.tree.filter_contents]
    exact (contents.filter _).map _

/-- A store with names that start with one another, an empty directory and a file beside
the root's directories. -/
def sharedNames : Store :=
  let start := Store.enter { current := .root, tree := .empty } "a"
  let inside := (start.after (.write "b-c" "1")).after (.write "b/x" "2")
  (inside.after (.makeDirectory "/ab")).after (.write "/a-b" "3")

theorem reachable_sharedNames : Reachable sharedNames := by
  have start := Reachable.new.entered "a"
  have inside := (start.changed (.write "b-c" "1")).changed (.write "b/x" "2")
  exact (inside.changed (.makeDirectory "/ab")).changed (.write "/a-b" "3")

/-- The walk is not in the order of the paths. -/
theorem walk_visits_sharedNames :
    Reachable sharedNames ∧ ∃ entries visited,
      (host sharedNames.current).list "/" sharedNames.tree = .ok entries ∧
      Walks (host sharedNames.current) sharedNames.tree entries visited ∧
      visited = [.directory "/a", .directory "/a/b", .file "/a/b/x", .file "/a/b-c",
        .file "/a-b", .directory "/ab"] ∧
      visited.Perm sharedNames.tree.contents ∧
      sharedNames.tree.filePaths = ["/a-b", "/a/b-c", "/a/b/x"] := by
  have paths : sharedNames.tree.filePaths = ["/a-b", "/a/b-c", "/a/b/x"] := by decide +kernel
  have walked : (host sharedNames.current).walk sharedNames.tree sharedNames.tree.depth "/" =
      [.directory "/a", .directory "/a/b", .file "/a/b/x", .file "/a/b-c", .file "/a-b",
        .directory "/ab"] := by
    decide +kernel
  obtain ⟨entries, visited, listed, ends, -, bounded, contents, -⟩ :=
    walk_visits reachable_sharedNames
  have isVisited := (bounded _ (Nat.le_refl _)).symm.trans walked
  exact ⟨reachable_sharedNames, entries, visited, listed, ends, isVisited, contents, paths⟩

end Memory

end ScriptView
