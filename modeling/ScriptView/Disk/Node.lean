/-!
# Nodes of a disk

A disk is a tree of directories with files and symbolic links in it. A node is
found by its address, the names on the way from the top. The entries of a
directory are in the order of their names.
-/

namespace ScriptView.Disk

/-- Something that a directory can hold. -/
inductive Node where
  | file (bytes : ByteArray)
  | link (target : String)
  | directory (entries : List (String × Node))

/-- The names on the way from the top of a disk to a node. -/
abbrev Address := List String

namespace Node

/-- Whether a node is a directory. -/
def isDirectory : Node → Bool
  | .directory _ => true
  | _ => false

/-- Whether a node is a file. -/
def isFile : Node → Bool
  | .file _ => true
  | _ => false

/-- Whether a node is a link. -/
def isLink : Node → Bool
  | .link _ => true
  | _ => false

/-- What a directory holds under a name. -/
def child? (node : Node) (name : String) : Option Node :=
  match node with
  | .directory entries => entries.lookup name
  | _ => none

/-- The node at an address below this one. -/
def get? : Address → Node → Option Node
  | [], node => some node
  | name :: rest, node => (node.child? name).bind (get? rest)

/-- Put a new entry behind the ones whose names come first. -/
def insertEntry (name : String) (new : Node) : List (String × Node) → List (String × Node)
  | [] => [(name, new)]
  | (other, node) :: rest =>
      if name < other then (name, new) :: (other, node) :: rest
      else (other, node) :: insertEntry name new rest

/-- Change what is kept under a name in a row of entries. -/
def alterEntry (name : String) (change : Option Node → Option Node)
    (entries : List (String × Node)) : List (String × Node) :=
  let others := entries.filter (·.1 != name)
  match change (entries.lookup name) with
  | some new => insertEntry name new others
  | none => others

/-- Change what is at an address. Nothing changes if the directory that the
address is in does not exist, and the top itself is never removed. -/
def alter (change : Option Node → Option Node) : Address → Node → Node
  | [], node => (change (some node)).getD node
  | [name], .directory entries => .directory (alterEntry name change entries)
  | name :: rest, .directory entries =>
      .directory (alterEntry name (fun child => child.map (alter change rest)) entries)
  | _, node => node

/-- Put a node at an address. -/
def put (address : Address) (new : Node) : Node → Node :=
  alter (fun _ => some new) address

/-- Remove the node at an address. -/
def erase (address : Address) : Node → Node :=
  alter (fun _ => none) address

@[simp] theorem get?_nil (node : Node) : get? [] node = some node := rfl

@[simp] theorem get?_cons (name : String) (rest : Address) (node : Node) :
    get? (name :: rest) node = (node.child? name).bind (get? rest) := rfl

theorem lookup_entry_cons (first : String) (node : Node) (rest : List (String × Node))
    (name : String) :
    ((first, node) :: rest).lookup name = if name = first then some node else rest.lookup name := by
  rw [List.lookup_cons]
  by_cases same : name = first
  · simp [same]
  · simp [same, beq_false_of_ne same]

theorem lookup_insertEntry {name : String} {entries : List (String × Node)}
    (absent : entries.lookup name = none) (new : Node) (other : String) :
    (insertEntry name new entries).lookup other =
      if other = name then some new else entries.lookup other := by
  induction entries with
  | nil => simp [insertEntry, lookup_entry_cons]
  | cons entry rest ih =>
    obtain ⟨first, node⟩ := entry
    have different : name ≠ first := by
      rintro rfl
      simp at absent
    rw [lookup_entry_cons, if_neg different] at absent
    rw [insertEntry]
    split
    · rw [lookup_entry_cons]
    · rw [lookup_entry_cons, ih absent, lookup_entry_cons]
      by_cases same : other = name
      · simp [same, different]
      · simp [same]

theorem lookup_filter_ne (name other : String) (entries : List (String × Node)) :
    (entries.filter (·.1 != name)).lookup other =
      if other = name then none else entries.lookup other := by
  induction entries with
  | nil => simp
  | cons entry rest ih =>
    obtain ⟨first, node⟩ := entry
    by_cases dropped : first = name
    · subst dropped
      rw [List.filter_cons_of_neg (by simp), ih, lookup_entry_cons]
      by_cases same : other = first <;> simp [same]
    · rw [List.filter_cons_of_pos (by simpa using dropped), lookup_entry_cons, ih,
        lookup_entry_cons]
      by_cases same : other = name
      · simp [same, Ne.symm dropped]
      · simp [same]

/-- Changing what is kept under a name changes nothing under other names. -/
theorem lookup_alterEntry (name : String) (change : Option Node → Option Node)
    (entries : List (String × Node)) (other : String) :
    (alterEntry name change entries).lookup other =
      if other = name then change (entries.lookup name) else entries.lookup other := by
  rw [alterEntry]
  split
  · next new eq =>
    rw [lookup_insertEntry (by simp [lookup_filter_ne]), lookup_filter_ne, eq]
    by_cases same : other = name <;> simp [same]
  · next eq => rw [lookup_filter_ne, eq]

theorem alter_cons_cons (change : Option Node → Option Node) (name next : String)
    (rest : Address) (entries : List (String × Node)) :
    alter change (name :: next :: rest) (.directory entries) =
      .directory (alterEntry name (·.map (alter change (next :: rest))) entries) := rfl

/-- What is put into a directory is found there. -/
theorem get?_put_append {top : Node} {directory : Address} {entries : List (String × Node)}
    (found : top.get? directory = some (.directory entries)) (name : String) (new : Node)
    (below : Address) :
    (put (directory ++ [name]) new top).get? (directory ++ name :: below) = new.get? below := by
  induction directory generalizing top with
  | nil =>
    cases found
    simp [put, alter, child?, lookup_alterEntry]
  | cons first rest ih =>
    obtain ⟨child, here, inside⟩ := Option.bind_eq_some_iff.mp found
    cases top with
    | file | link => simp [child?] at here
    | directory others =>
      obtain ⟨next, more, eq⟩ : ∃ next more, rest ++ [name] = next :: more :=
        List.exists_cons_of_ne_nil (by simp)
      rw [List.cons_append, List.cons_append, eq, put, alter_cons_cons, ← eq]
      simp only [child?] at here
      simpa [put, child?, lookup_alterEntry, here] using ih inside

/-- Putting a node somewhere changes nothing elsewhere. -/
theorem get?_put_of_not_prefix {address other : Address} (apart : ¬ address <+: other)
    (beside : ¬ other <+: address) (new top : Node) :
    (put address new top).get? other = top.get? other := by
  induction address generalizing other top with
  | nil => exact absurd (List.nil_prefix) apart
  | cons first rest ih =>
    cases other with
    | nil => exact absurd (List.nil_prefix) beside
    | cons name more =>
      cases top with
      | file | link => cases rest <;> simp [put, alter, child?]
      | directory entries =>
        by_cases same : name = first
        · subst same
          rw [List.cons_prefix_cons] at apart beside
          cases rest with
          | nil => exact absurd ⟨rfl, List.nil_prefix⟩ apart
          | cons next rest =>
            rw [put, alter_cons_cons]
            simp only [get?_cons, child?, lookup_alterEntry, if_true, Option.bind_map]
            congr 1
            funext child
            exact ih (fun inside => apart ⟨rfl, inside⟩) (fun inside => beside ⟨rfl, inside⟩) child
        · cases rest with
          | nil => simp [put, alter, child?, lookup_alterEntry, same]
          | cons next rest =>
            rw [put, alter_cons_cons]
            simp [child?, lookup_alterEntry, same]

end Node

end ScriptView.Disk
