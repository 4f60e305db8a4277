import ScriptView.Disk.Search
import ScriptView.Proofs.Disk.Lookup

/-!
# Walking through a directory

In a tree without links a walk through a directory comes to every file below it, by the
path of the place where the file is. The walk follows the paths of directories, which grow
with every name; where all directories can be read it never stops early.
-/

namespace ScriptView.Disk

variable {top node : Node} {directory place : Location} {path : String}
  {entries : List (String × Node)}

/-- There is a file at a place. -/
def HasFile (top : Node) (place : Location) : Prop :=
  ∃ bytes, top.get? place.address = some (.file bytes)

/-- A path is that of a file below a directory. -/
def IsFileBelow (top : Node) (directory : Location) (path : String) : Prop :=
  ∃ place : Location, place.isBelow directory = true ∧ HasFile top place ∧ place.text = path

theorem join_text (directory : Location) (name : Name) :
    join directory.text name.text = Location.text (directory ++ [name]) := by
  have relative : isAbsolute name.text = false := by
    rw [isAbsolute, beq_eq_false_iff_ne]
    intro starts
    exact Location.not_mem_text_of_isSeparator name rfl (List.mem_of_head? starts)
  have last : String.intercalate "/" [name.text] = name.text := rfl
  rw [join, relative, if_neg Bool.false_ne_true, Location.text_append directory (by simp),
    Location.belowText, List.map_singleton, last]
  by_cases isRoot : directory = .root
  · rw [isRoot]
    rfl
  · have notRoot : directory.text ≠ "/" := fun same =>
      isRoot (Location.text_injective same)
    have noSlash : endsWithSlash directory.text = false :=
      beq_eq_false_iff_ne.mpr ((Location.isCanonical_text directory).noTrailing notRoot)
    rw [noSlash, if_neg Bool.false_ne_true, if_neg isRoot]

theorem utf8ByteSize_lt_concat (directory : Location) (name : Name) :
    directory.text.utf8ByteSize < (Location.text (directory ++ [name])).utf8ByteSize := by
  have nonempty : name.text.utf8ByteSize ≠ 0 := fun zero =>
    name.isName.1 (String.utf8ByteSize_eq_zero_iff.mp zero)
  rw [Location.utf8ByteSize_text (List.append_ne_nil_of_right_ne_nil _ (List.cons_ne_nil _ _)),
    List.map_append, List.sum_append, List.map_singleton, List.sum_singleton]
  by_cases isRoot : directory = .root
  · rw [isRoot]
    change 1 < 0 + _
    omega
  · rw [Location.utf8ByteSize_text isRoot]
    omega

theorem countsAsFile_of_isPlain (plain : node.IsPlain) (path : String) :
    countsAsFile top path node = node.isFile := by
  cases plain with
  | file => rfl
  | directory => rfl

theorem isEntered_of_isPlain (plain : node.IsPlain) (directory path : String) :
    isEntered top directory path node = node.isDirectory := by
  cases plain with
  | file => rfl
  | directory => rfl

theorem get?_address_concat (found : top.get? directory.address = some (.directory entries))
    (name : Name) :
    top.get? (Location.address (directory ++ [name])) = entries.lookup name.text := by
  rw [Location.address_append]
  exact Node.get?_concat found name.text

/-- What is below a place makes it a directory. -/
theorem exists_directory_of_isBelow (isThere : top.get? place.address = some node)
    (below : place.isBelow directory = true) :
    ∃ entries, top.get? directory.address = some (.directory entries) := by
  obtain ⟨⟨rest, rfl⟩, differs⟩ := Location.isBelow_iff.mp below
  rw [Location.address_append, Node.get?_append] at isThere
  obtain ⟨above, here, inside⟩ := Option.bind_eq_some_iff.mp isThere
  cases rest with
  | nil => exact absurd (List.append_nil directory) differs
  | cons name more =>
      obtain ⟨entries, child, rfl, -⟩ := Node.exists_entry_of_get? inside
      exact ⟨entries, here⟩

/-- A walk through a directory finds its files and goes on in its directories. -/
theorem filesBelow_text (plain : top.IsPlain) (readable : IsReadable top)
    (found : top.get? directory.address = some (.directory entries)) :
    filesBelow top directory.text = entries.flatMap fun (name, node) =>
      if node.isFile then [join directory.text name]
      else if node.isDirectory then filesBelow top (join directory.text name)
      else [] := by
  have plainHere := (plain.get? found).1
  have shortHere := (isReadable_iff plain).mp readable _ _ found
  have isRead := (readDirectory_eq_ok_iff plain).mpr ⟨found, shortHere⟩
  rw [filesBelow, isRead]
  apply List.flatMap_congr
  intro entry member
  obtain ⟨text, child⟩ := entry
  have held := (Node.mem_iff_lookup plainHere.distinct).mp member
  obtain ⟨⟨isName, -⟩, plainChild⟩ := plainHere.entry held
  dsimp only
  rw [countsAsFile_of_isPlain plainChild, isEntered_of_isPlain plainChild]
  cases child with
  | file | link => rfl
  | directory others =>
      have isThere := (get?_address_concat found ⟨text, isName⟩).trans held
      have joined : join directory.text text = Location.text (directory ++ [⟨text, isName⟩]) :=
        join_text directory ⟨text, isName⟩
      have longer := utf8ByteSize_lt_concat directory ⟨text, isName⟩
      have short := (isReadable_iff plain).mp readable _ _ isThere
      rw [← joined] at longer short
      simp [Node.isFile, Node.isDirectory, longer, short]

theorem filesBelow_eq_nil (plain : top.IsPlain)
    (noDirectory : ∀ entries, top.get? directory.address ≠ some (.directory entries)) :
    filesBelow top directory.text = [] := by
  rw [filesBelow]
  split
  · rfl
  · next entries isRead =>
    exact absurd ((readDirectory_eq_ok_iff plain).mp isRead).1 (noDirectory entries)

/-- What a walk finds in a directory is the path of a file there or found in a directory
there. -/
theorem mem_filesBelow_iff (plain : top.IsPlain) (readable : IsReadable top)
    (found : top.get? directory.address = some (.directory entries)) :
    path ∈ filesBelow top directory.text ↔
      ∃ (name : Name) (child : Node), entries.lookup name.text = some child ∧
        (child.isFile = true ∧ Location.text (directory ++ [name]) = path ∨
          child.isDirectory = true ∧
            path ∈ filesBelow top (Location.text (directory ++ [name]))) := by
  have plainHere := (plain.get? found).1
  rw [filesBelow_text plain readable found, List.mem_flatMap]
  constructor
  · intro inside
    obtain ⟨⟨text, child⟩, member, isIn⟩ := inside
    have held := (Node.mem_iff_lookup plainHere.distinct).mp member
    obtain ⟨⟨isName, -⟩, plainChild⟩ := plainHere.entry held
    have joined := join_text directory ⟨text, isName⟩
    refine ⟨⟨text, isName⟩, child, held, ?_⟩
    rw [← joined]
    cases child with
    | file bytes => exact .inl ⟨rfl, (List.mem_singleton.mp isIn).symm⟩
    | directory others => exact .inr ⟨rfl, isIn⟩
    | link => nomatch plainChild
  · intro inside
    obtain ⟨name, child, held, isIn⟩ := inside
    refine ⟨(name.text, child), (Node.mem_iff_lookup plainHere.distinct).mpr held, ?_⟩
    rw [← join_text] at isIn
    cases isIn with
    | inl isFile => simp [isFile.1, isFile.2]
    | inr goesOn =>
        have notFile : child.isFile = false := by
          cases child with
          | file => nomatch goesOn.1
          | directory | link => rfl
        simp [notFile, goesOn.1, goesOn.2]

/-- A file below a directory is in it or below a directory in it. -/
theorem isFileBelow_iff (found : top.get? directory.address = some (.directory entries)) :
    IsFileBelow top directory path ↔
      ∃ (name : Name) (child : Node), entries.lookup name.text = some child ∧
        (child.isFile = true ∧ Location.text (directory ++ [name]) = path ∨
          child.isDirectory = true ∧ IsFileBelow top (directory ++ [name]) path) := by
  constructor
  · intro isBelow
    obtain ⟨place, below, ⟨bytes, isThere⟩, isPath⟩ := isBelow
    obtain ⟨name, here | deeper⟩ := Location.isBelow_iff_exists.mp below
    · rw [here] at isThere isPath
      have held := (get?_address_concat found name).symm.trans isThere
      exact ⟨name, .file bytes, held, .inl ⟨rfl, isPath⟩⟩
    · obtain ⟨others, isDirectory⟩ := exists_directory_of_isBelow isThere deeper
      have held := (get?_address_concat found name).symm.trans isDirectory
      exact ⟨name, .directory others, held, .inr ⟨rfl, place, deeper, ⟨bytes, isThere⟩, isPath⟩⟩
  · intro isIn
    obtain ⟨name, child, held, ⟨isFile, isPath⟩ | ⟨-, place, below, isFile, isPath⟩⟩ := isIn
    · have isThere := (get?_address_concat found name).trans held
      refine ⟨_, Location.isBelow_iff_exists.mpr ⟨name, .inl rfl⟩, ?_, isPath⟩
      cases child with
      | file bytes => exact ⟨bytes, isThere⟩
      | directory | link => nomatch isFile
    · exact ⟨place, Location.isBelow_iff_exists.mpr ⟨name, .inr below⟩, isFile, isPath⟩

/-- A walk through a directory finds the paths of all files below it. -/
theorem mem_filesBelow (plain : top.IsPlain) (readable : IsReadable top) (directory : Location) :
    path ∈ filesBelow top directory.text ↔ IsFileBelow top directory path := by
  by_cases isDirectory : ∃ entries, top.get? directory.address = some (.directory entries)
  · obtain ⟨entries, found⟩ := isDirectory
    rw [mem_filesBelow_iff plain readable found, isFileBelow_iff found]
    apply exists_congr
    intro name
    apply exists_congr
    intro child
    apply and_congr_right
    intro held
    apply or_congr_right
    apply and_congr_right
    intro goesOn
    cases child with
    | file | link => nomatch goesOn
    | directory others =>
        have isThere := (get?_address_concat found name).trans held
        have longer := utf8ByteSize_lt_concat directory name
        have short := (isReadable_iff plain).mp readable _ _ isThere
        exact mem_filesBelow plain readable (directory ++ [name])
  · rw [not_exists] at isDirectory
    rw [filesBelow_eq_nil plain isDirectory]
    constructor
    · intro nothing
      cases nothing
    · intro isBelow
      obtain ⟨place, below, ⟨bytes, isThere⟩, -⟩ := isBelow
      obtain ⟨entries, found⟩ := exists_directory_of_isBelow isThere below
      exact absurd found (isDirectory entries)
termination_by pathLimit - directory.text.utf8ByteSize
decreasing_by omega

end ScriptView.Disk
