import ScriptView.Proofs.Disk.Lookup

/-!
# What a tree holds

A tree is looked at address by address: there is nothing, a file, a link or a directory.
Putting something where no directory is changes this address alone.
-/

namespace ScriptView.Disk

variable {top new node : Node} {address directory other : Address} {name : String}
  {bytes : ByteArray} {entries : List (String × Node)}

/-! ## Contents -/

/-- What is at an address, whatever a directory holds. -/
inductive Content where
  | file (bytes : ByteArray)
  | link (target : String)
  | directory

/-- What a node is, whatever it holds if it is a directory. -/
def Node.content : Node → Content
  | .file bytes => .file bytes
  | .link target => .link target
  | .directory _ => .directory

/-- What a tree holds at an address. -/
def contentAt? (top : Node) (address : Address) : Option Content :=
  (top.get? address).map Node.content

/-- What a node is without the bytes of a file. -/
def Content.shape : Content → Content
  | .file _ => .file .empty
  | content => content

theorem Content.eq_of_shape {content other : Content} (same : content.shape = other.shape)
    (notFile : ∀ bytes, other ≠ .file bytes) : content = other := by
  cases other with
  | file bytes => exact absurd rfl (notFile bytes)
  | link | directory => cases content <;> simp_all [Content.shape]

theorem contentAt?_eq_directory_iff :
    contentAt? top address = some .directory ↔
      ∃ entries, top.get? address = some (.directory entries) := by
  rw [contentAt?, Option.map_eq_some_iff]
  constructor
  · intro isThere
    obtain ⟨node, found, isDirectory⟩ := isThere
    cases node with
    | file | link => cases isDirectory
    | directory entries => exact ⟨entries, found⟩
  · intro isThere
    obtain ⟨entries, found⟩ := isThere
    exact ⟨_, found, rfl⟩

theorem isTop_of_isDirectory (isDirectory : top.isDirectory = true) :
    contentAt? top [] = some .directory := by
  cases top with
  | file | link => cases isDirectory
  | directory => rfl

theorem contentAt?_eq_file_iff :
    contentAt? top address = some (.file bytes) ↔ top.get? address = some (.file bytes) := by
  rw [contentAt?, Option.map_eq_some_iff]
  constructor
  · intro isThere
    obtain ⟨node, found, isFile⟩ := isThere
    cases node with
    | link | directory => cases isFile
    | file other =>
        cases isFile
        exact found
  · intro found
    exact ⟨_, found, rfl⟩

theorem contentAt?_eq_link_iff {target : String} :
    contentAt? top address = some (.link target) ↔ top.get? address = some (.link target) := by
  rw [contentAt?, Option.map_eq_some_iff]
  constructor
  · intro isThere
    obtain ⟨node, found, isLink⟩ := isThere
    cases node with
    | file | directory => cases isLink
    | link other =>
        cases isLink
        exact found
  · intro found
    exact ⟨_, found, rfl⟩

theorem contentAt?_eq_none_iff : contentAt? top address = none ↔ top.get? address = none :=
  Option.map_eq_none_iff

/-- What has something in it is a directory. -/
theorem isDirectory_above (below : other <+: address) (differs : other ≠ address)
    (isThere : contentAt? top address ≠ none) : contentAt? top other = some .directory := by
  obtain ⟨rest, rfl⟩ := below
  cases rest with
  | nil => exact absurd (List.append_nil other).symm differs
  | cons name rest =>
      obtain ⟨node, found⟩ := Option.ne_none_iff_exists'.mp (mt contentAt?_eq_none_iff.mpr isThere)
      rw [Node.get?_append] at found
      obtain ⟨above, here, inside⟩ := Option.bind_eq_some_iff.mp found
      obtain ⟨entries, child, rfl, -⟩ := Node.exists_entry_of_get? inside
      exact contentAt?_eq_directory_iff.mpr ⟨entries, here⟩

theorem isDirectory_of_isPrefix (below : other <+: address)
    (isDirectory : contentAt? top address = some .directory) :
    contentAt? top other = some .directory := by
  by_cases same : other = address
  · rw [same, isDirectory]
  · exact isDirectory_above below same (by simp [isDirectory])

/-- Two trees that differ only in the bytes of files. -/
def SameShape (top other : Node) : Prop :=
  ∀ address,
    (contentAt? top address).map Content.shape = (contentAt? other address).map Content.shape

namespace SameShape

variable {before between after : Node}

theorem refl (top : Node) : SameShape top top :=
  fun _ => rfl

theorem trans (first : SameShape before between) (second : SameShape between after) :
    SameShape before after :=
  fun address => (first address).trans (second address)

theorem symm (same : SameShape before after) : SameShape after before :=
  fun address => (same address).symm

/-- What is a file in one of the trees is a file in the other, and all else is the same. -/
theorem contentAt?_cases (same : SameShape before after) (address : Address) :
    contentAt? before address = contentAt? after address ∨
      ∃ bytes others, contentAt? before address = some (.file bytes) ∧
        contentAt? after address = some (.file others) := by
  have shapes := same address
  cases first : contentAt? before address with
  | none =>
      cases second : contentAt? after address with
      | none => exact .inl rfl
      | some content => simp [first, second] at shapes
  | some content =>
      cases second : contentAt? after address with
      | none => simp [first, second] at shapes
      | some other =>
          cases content with
          | file bytes =>
              cases other with
              | file others => exact .inr ⟨bytes, others, rfl, rfl⟩
              | link | directory => simp [first, second, Content.shape] at shapes
          | link target | directory =>
              cases other <;> simp_all [Content.shape]

theorem isDirectory (same : SameShape before after) {address : Address}
    (isDirectory : contentAt? before address = some .directory) :
    contentAt? after address = some .directory := by
  rcases same.contentAt?_cases address with eq | ⟨bytes, others, isFile, -⟩
  · rw [← eq, isDirectory]
  · rw [isDirectory] at isFile
    cases isFile

end SameShape

/-! ## Changes -/

/-- Putting something without entries where no directory is changes nothing elsewhere. -/
theorem contentAt?_put (isDirectory : contentAt? top directory = some .directory)
    (free : contentAt? top (directory ++ [name]) ≠ some .directory)
    (bare : ∀ entry, new.child? entry = none) (other : Address) :
    contentAt? (Node.put (directory ++ [name]) new top) other =
      if other = directory ++ [name] then some new.content else contentAt? top other := by
  obtain ⟨entries, found⟩ := contentAt?_eq_directory_iff.mp isDirectory
  have put := Node.get?_put_append found name new
  split
  · next here =>
    rw [here, contentAt?, put []]
    rfl
  · next elsewhere =>
    by_cases below : directory ++ [name] <+: other
    · obtain ⟨rest, rfl⟩ := below
      cases rest with
      | nil => simp at elsewhere
      | cons first rest =>
          have nothing : contentAt? top (directory ++ [name] ++ first :: rest) = none := by
            by_contra isThere
            exact free (isDirectory_above (List.prefix_append _ _) (by simp) isThere)
          rw [nothing, contentAt?_eq_none_iff, List.append_assoc, List.singleton_append, put,
            Node.get?_cons, bare]
          rfl
    · by_cases above : other <+: directory ++ [name]
      · have isThere : contentAt? (Node.put (directory ++ [name]) new top) (directory ++ [name]) ≠
            none := by
          rw [contentAt?, put []]
          simp
        have inside : other <+: directory := by
          rcases List.prefix_concat_iff.mp above with same | inside
          · contradiction
          · exact inside
        rw [isDirectory_above above elsewhere isThere,
          isDirectory_of_isPrefix inside isDirectory]
      · rw [contentAt?, contentAt?, Node.get?_put_of_not_prefix below above]

end ScriptView.Disk
