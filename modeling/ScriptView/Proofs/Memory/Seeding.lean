import ScriptView.Proofs.Memory.Apart

/-!
# Trees with files from the start

Files that a tree starts with are written one after the other, and a clash between two of
them shows up in one way or another depending on which comes first. Whether there is a
clash does not depend on it. Files that go to different places can be written exactly if
none is at the root and none is below another, and the tree then holds them and the
directories above them, whatever the order.
-/

namespace ScriptView

namespace Memory

variable {tree written : Tree} {files order : List (String × String)} {file : String × String}

/-- The place that a file is written to. -/
def placeOf (file : String × String) : Location :=
  Location.root.resolve file.1

/-- Files can stand in one tree: none is at the root, and none is below another. -/
structure FitTogether (files : List (String × String)) : Prop where
  notRoot : ∀ file ∈ files, placeOf file ≠ .root
  notBelow : ∀ file ∈ files, ∀ other ∈ files, (placeOf file).isBelow (placeOf other) = false

/-- A tree holds some files and no others, and the directories above them and no others.
The root is there even if nothing is below it. -/
structure Tree.HoldsJust (tree : Tree) (files : List (String × String)) : Prop where
  text?_eq_some_iff : ∀ location text, tree.text? location = some text ↔
    ∃ file ∈ files, placeOf file = location ∧ file.2 = text
  isDirectory_iff : ∀ location, tree.isDirectory location = true ↔
    location = .root ∨ ∃ file ∈ files, (placeOf file).isBelow location = true

theorem FitTogether.of_perm (fits : FitTogether files) (same : order.Perm files) :
    FitTogether order where
  notRoot file member := fits.notRoot file (same.mem_iff.mp member)
  notBelow file member other otherMember :=
    fits.notBelow file (same.mem_iff.mp member) other (same.mem_iff.mp otherMember)

/-- One more file fits if it is not at the root and neither above nor below the others. -/
theorem fitTogether_concat_iff :
    FitTogether (files ++ [file]) ↔
      FitTogether files ∧ placeOf file ≠ .root ∧ ∀ other ∈ files,
        (placeOf other).isBelow (placeOf file) = false ∧
          (placeOf file).isBelow (placeOf other) = false := by
  have last : file ∈ files ++ [file] := List.mem_append_right _ List.mem_cons_self
  constructor
  · intro fits
    refine ⟨⟨?_, ?_⟩, fits.notRoot file last, ?_⟩
    · intro other member
      exact fits.notRoot other (List.mem_append_left _ member)
    · intro first firstMember second secondMember
      exact fits.notBelow first (List.mem_append_left _ firstMember) second
        (List.mem_append_left _ secondMember)
    · intro other member
      have earlier : other ∈ files ++ [file] := List.mem_append_left _ member
      exact ⟨fits.notBelow other earlier file last, fits.notBelow file last other earlier⟩
  · intro both
    obtain ⟨fits, notRoot, apart⟩ := both
    have notItself : (placeOf file).isBelow (placeOf file) = false := by simp [Location.isBelow]
    constructor
    · exact List.forall_mem_append.mpr ⟨fits.notRoot, List.forall_mem_singleton.mpr notRoot⟩
    · refine List.forall_mem_append.mpr ⟨?_, List.forall_mem_singleton.mpr ?_⟩
      · intro other member
        refine List.forall_mem_append.mpr ⟨fits.notBelow other member, ?_⟩
        exact List.forall_mem_singleton.mpr (apart other member).1
      · have below : ∀ other ∈ files, (placeOf file).isBelow (placeOf other) = false :=
          fun other member => (apart other member).2
        exact List.forall_mem_append.mpr ⟨below, List.forall_mem_singleton.mpr notItself⟩

namespace Tree.HoldsJust

variable {other : Tree}

theorem isFile_iff (holds : tree.HoldsJust files) (location : Location) :
    tree.isFile location = true ↔ ∃ file ∈ files, placeOf file = location := by
  rw [isFile_eq_isSome, Option.isSome_iff_exists]
  constructor
  · intro found
    obtain ⟨text, isText⟩ := found
    obtain ⟨file, member, here, -⟩ := (holds.text?_eq_some_iff location text).mp isText
    exact ⟨file, member, here⟩
  · intro found
    obtain ⟨file, member, here⟩ := found
    exact ⟨file.2, (holds.text?_eq_some_iff location file.2).mpr ⟨file, member, here, rfl⟩⟩

theorem of_perm (holds : tree.HoldsJust files) (same : order.Perm files) :
    tree.HoldsJust order where
  text?_eq_some_iff location text := by
    rw [holds.text?_eq_some_iff]
    simp only [same.mem_iff]
  isDirectory_iff location := by
    rw [holds.isDirectory_iff]
    simp only [same.mem_iff]

/-- What a tree holds determines it. -/
theorem eq (holds : tree.HoldsJust files) (holdsToo : other.HoldsJust files) : tree = other := by
  apply Tree.ext_view
  · intro location
    apply Option.ext
    intro text
    rw [holds.text?_eq_some_iff, holdsToo.text?_eq_some_iff]
  · intro location
    rw [Bool.eq_iff_iff, holds.isDirectory_iff, holdsToo.isDirectory_iff]

theorem empty : Tree.empty.HoldsJust [] where
  text?_eq_some_iff location text := by simp
  isDirectory_iff location := by simp

/-- Another file can be written exactly if it fits to those that are there. -/
theorem exists_addFile_iff (holds : tree.HoldsJust files) (closed : tree.Closed) (text : String) :
    (∃ written, tree.addFile (placeOf file) text = .ok written) ↔
      placeOf file ≠ .root ∧ ∀ other ∈ files,
        (placeOf other).isBelow (placeOf file) = false ∧
          (placeOf file).isBelow (placeOf other) = false := by
  rw [closed.exists_addFile_iff, Bool.eq_false_iff, ne_eq, holds.isDirectory_iff, not_or]
  constructor
  · intro free
    obtain ⟨⟨notRoot, noneBelow⟩, noFile⟩ := free
    refine ⟨notRoot, ?_⟩
    intro other member
    constructor
    · apply Bool.eq_false_iff.mpr
      intro below
      exact noneBelow ⟨other, member, below⟩
    · apply Bool.eq_false_iff.mpr
      intro below
      obtain ⟨above, differs⟩ := Location.isBelow_iff.mp below
      have inWay := noFile _ ((Location.prefix_dropLast_iff notRoot).mpr ⟨above, Ne.symm differs⟩)
      rw [(holds.isFile_iff _).mpr ⟨other, member, rfl⟩] at inWay
      contradiction
  · intro apart
    obtain ⟨notRoot, apart⟩ := apart
    refine ⟨⟨notRoot, ?_⟩, ?_⟩
    · intro someBelow
      obtain ⟨other, member, below⟩ := someBelow
      rw [(apart other member).1] at below
      contradiction
    · intro place above
      apply Bool.eq_false_iff.mpr
      intro isFile
      obtain ⟨other, member, here⟩ := (holds.isFile_iff place).mp isFile
      obtain ⟨inside, differs⟩ := (Location.prefix_dropLast_iff notRoot).mp above
      have below := Location.isBelow_iff.mpr ⟨inside, Ne.symm differs⟩
      rw [← here, (apart other member).2] at below
      contradiction

/-- Writing a file to a place of its own adds it and the directories above it. -/
theorem addFile (holds : tree.HoldsJust files) (closed : tree.Closed)
    (fresh : ∀ other ∈ files, placeOf other ≠ placeOf file)
    (added : tree.addFile (placeOf file) file.2 = .ok written) :
    written.HoldsJust (files ++ [file]) where
  text?_eq_some_iff location text := by
    rw [text?_addFile added]
    simp only [List.mem_append, List.mem_singleton, or_and_right, exists_or, exists_eq_left]
    rw [← holds.text?_eq_some_iff]
    by_cases here : location = placeOf file
    · subst here
      have nothing : tree.text? (placeOf file) ≠ some text := by
        intro found
        obtain ⟨other, member, same, -⟩ := (holds.text?_eq_some_iff _ text).mp found
        exact fresh other member same
      simp [nothing]
    · simp [here, Ne.symm here]
  isDirectory_iff location := by
    obtain ⟨notDirectory, made, directories, same⟩ := exists_made_of_addFile added
    have notRoot : placeOf file ≠ .root := by
      intro isRoot
      rw [isRoot, closed.root] at notDirectory
      contradiction
    have above : location <+: (placeOf file).dropLast ↔ (placeOf file).isBelow location = true := by
      rw [Location.prefix_dropLast_iff notRoot, Location.isBelow_iff, ne_comm]
    rw [same, closed.isDirectory_made directories, holds.isDirectory_iff, above]
    simp only [List.mem_append, List.mem_singleton, or_and_right, exists_or, exists_eq_left,
      or_assoc]

end Tree.HoldsJust

/-! ## Writing all files -/

theorem seed_concat (files : List (String × String)) (file : String × String) :
    seed (files ++ [file]) = (seed files).bind fun tree => tree.addFile (placeOf file) file.2 := by
  rw [seed, List.foldlM_append]
  change (seed files).bind (fun tree =>
    (tree.addFile (placeOf file) file.2).bind fun written => .ok written) = _
  congr
  funext tree
  cases tree.addFile (placeOf file) file.2 <;> rfl

theorem closed_of_seed (seeds : seed files = .ok tree) : tree.Closed :=
  kept_closed.of_foldlM Tree.closed_empty seeds

/-- Files that go to different places can be written exactly if they fit together, and they
are what the tree then holds. -/
theorem seed_spec (distinct : (files.map placeOf).Nodup) :
    ((∃ tree, seed files = .ok tree) ↔ FitTogether files) ∧
      ∀ tree, seed files = .ok tree → tree.HoldsJust files := by
  induction files using List.reverseRecOn with
  | nil =>
      have starts : seed [] = .ok .empty := rfl
      constructor
      · exact iff_of_true ⟨_, starts⟩ ⟨by simp, by simp⟩
      · intro tree seeds
        cases seeds
        exact .empty
  | append_singleton files file ih =>
      rw [List.map_append, List.nodup_append] at distinct
      obtain ⟨earlier, -, apart⟩ := distinct
      obtain ⟨exists_iff, holds⟩ := ih earlier
      have fresh : ∀ other ∈ files, placeOf other ≠ placeOf file := by
        intro other member
        exact apart _ (List.mem_map_of_mem member) _ List.mem_cons_self
      rw [seed_concat, fitTogether_concat_iff, ← exists_iff]
      cases seeds : seed files with
      | error => simp [Except.bind]
      | ok tree =>
          have closed := closed_of_seed seeds
          have holdsHere := holds tree seeds
          constructor
          · rw [← holdsHere.exists_addFile_iff closed file.2]
            exact (and_iff_right ⟨tree, rfl⟩).symm
          · intro written added
            exact holdsHere.addFile closed fresh added

/-- Whether files that go to different places can be written, and which tree they then
make, does not depend on their order. -/
theorem seed_of_perm (distinct : (files.map placeOf).Nodup) :
    ((∃ tree, seed files = .ok tree) ↔ FitTogether files) ∧
      ∀ order : List (String × String), order.Perm files →
        ((∃ tree, seed order = .ok tree) ↔ ∃ tree, seed files = .ok tree) ∧
          ∀ tree, seed order = .ok tree → seed files = .ok tree ∧ tree.HoldsJust files := by
  obtain ⟨exists_iff, holds⟩ := seed_spec distinct
  refine ⟨exists_iff, ?_⟩
  intro order same
  obtain ⟨exists_iff_too, holdsToo⟩ := seed_spec ((same.map placeOf).nodup_iff.mpr distinct)
  have together : (∃ tree, seed order = .ok tree) ↔ ∃ tree, seed files = .ok tree := by
    rw [exists_iff, exists_iff_too]
    constructor
    · intro fits
      exact fits.of_perm same.symm
    · intro fits
      exact fits.of_perm same
  refine ⟨together, ?_⟩
  intro tree seeds
  have holdsTree := (holdsToo tree seeds).of_perm same.symm
  obtain ⟨other, seedsToo⟩ := together.mp ⟨tree, seeds⟩
  rw [holdsTree.eq (holds other seedsToo)]
  exact ⟨seedsToo, holds other seedsToo⟩

/-- Three files with directories in common, and the last one first. -/
theorem seed_of_perm_lastFirst :
    let files := [("/a/b/x", "1"), ("a\\.\\y", "2"), ("c/../a/b/z/", "3")]
    let order := [("c/../a/b/z/", "3"), ("/a/b/x", "1"), ("a\\.\\y", "2")]
    (files.map placeOf).Nodup ∧ order.Perm files ∧
      ∃ tree, seed order = .ok tree ∧ seed files = .ok tree ∧ tree.HoldsJust files := by
  intro files order
  have distinct : (files.map placeOf).Nodup := by decide +kernel
  have same : order.Perm files := by decide +kernel
  have fits : FitTogether files := ⟨by decide +kernel, by decide +kernel⟩
  obtain ⟨exists_iff, orders⟩ := seed_of_perm distinct
  obtain ⟨together, holds⟩ := orders order same
  obtain ⟨tree, seeds⟩ := together.mpr (exists_iff.mpr fits)
  exact ⟨distinct, same, tree, seeds, holds tree seeds⟩

end Memory

end ScriptView
