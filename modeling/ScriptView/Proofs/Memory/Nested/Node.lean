import ScriptView.Proofs.Location

/-!
# Nested trees

A tree as it is drawn: a node is a file, or a directory that holds nodes of its own
under names. Nothing is said of paths here. A location is followed name by name, and
whatever is put at it changes the directories on the way and nothing beside them.
-/

namespace ScriptView

/-- Names are listed in the order of their texts. -/
def Name.order (first second : Name) : Ordering :=
  compare first.text second.text

instance : Std.TransCmp Name.order :=
  inferInstanceAs (Std.TransCmp (compareOn Name.text))

instance : Std.LawfulEqCmp Name.order where
  eq_of_compare same := Name.eq_of_text (Std.LawfulEqOrd.eq_of_compare same)

theorem Name.order_self (name : Name) : Name.order name name = .eq :=
  Std.ReflCmp.compare_self

namespace Memory

/-- What can be told of a place: the text of the file that is there, and whether a
directory is there. -/
structure Sight where
  text? : Option String
  isDirectory : Bool
  deriving DecidableEq

namespace Sight

/-- Of a place where nothing is. -/
def nothing : Sight := ⟨none, false⟩

/-- Of a file. -/
def file (text : String) : Sight := ⟨some text, false⟩

/-- Of a directory. -/
def directory : Sight := ⟨none, true⟩

end Sight

/-- A file with its text, or a directory with what it holds under each name. -/
inductive Nested.Node where
  | file (text : String)
  | directory (entries : List (Name × Node))

namespace Nested.Node

/-- The entries of a directory. -/
abbrev Row := List (Name × Node)

/-- Every directory in a node has its entries in the order of their names, so that
it has no two under one name. -/
inductive Ordered : Node → Prop where
  | file (text : String) : Ordered (.file text)
  | directory {row : Row}
      (names : row.Pairwise fun first second => Name.order first.1 second.1 = .lt)
      (nodes : ∀ entry ∈ row, Ordered entry.2) : Ordered (.directory row)

/-- What is told of a node, or of nothing. -/
def sight : Option Node → Sight
  | none => .nothing
  | some (.file text) => .file text
  | some (.directory _) => .directory

/-- The entries that something holds. -/
def inside : Option Node → Row
  | some (.directory row) => row
  | _ => []

/-- What a location leads to. -/
def get? : Location → Option Node → Option Node
  | [], found => found
  | name :: rest, found => get? rest ((inside found).lookup name)

/-- Put a node under a name, or take away the one that is there. -/
def put (name : Name) (new : Option Node) (row : Row) : Row :=
  (row.filter fun entry => (Name.order entry.1 name).isLT) ++
    ((new.map fun node => (name, node)).toList ++
      row.filter fun entry => (Name.order name entry.1).isLT)

/-- Put a node at a location, or take away the one that is there. Directories are
made on the way. -/
def set (new : Option Node) : Location → Option Node → Option Node
  | [], _ => new
  | name :: rest, found =>
      let row := inside found
      some (.directory (put name (set new rest (row.lookup name)) row))

variable {new found : Option Node} {location place : Location} {row : Row}

/-! ## Rows -/

theorem lookup_filter (keeps : Name → Bool) (row : Row) (name : Name) :
    (row.filter fun entry => keeps entry.1).lookup name =
      if keeps name then row.lookup name else none := by
  induction row with
  | nil => simp
  | cons entry rest ih =>
      obtain ⟨first, node⟩ := entry
      by_cases same : name = first
      · subst same
        cases kept : keeps name <;> simp [kept, ih]
      · have differs : (name == first) = false := by simpa using same
        cases kept : keeps first <;> simp [kept, ih, List.lookup_cons, differs]

/-- Putting something under a name changes nothing under other names. -/
theorem lookup_put (name : Name) (new : Option Node) (row : Row) (other : Name) :
    (put name new row).lookup other = if other = name then new else row.lookup other := by
  have before := lookup_filter (fun key => (Name.order key name).isLT) row other
  have behind := lookup_filter (fun key => (Name.order name key).isLT) row other
  rw [put, List.lookup_append, List.lookup_append, before, behind]
  by_cases same : other = name
  · subst same
    cases new <;> simp [Name.order_self]
  · have alone : (new.map fun node => (name, node)).toList.lookup other = none := by
      cases new <;> simp [same]
    rw [alone, if_neg same]
    cases order : Name.order other name with
    | lt => simp [Std.OrientedCmp.gt_of_lt order]
    | eq => exact absurd (Std.LawfulEqCmp.eq_of_compare order) same
    | gt => simp [Std.OrientedCmp.lt_of_gt order]

/-- Where names are in order, each leads to the one entry that has it. -/
theorem lookup_eq_some_of_mem
    (names : row.Pairwise fun first second => Name.order first.1 second.1 = .lt)
    {name : Name} {node : Node} (member : (name, node) ∈ row) : row.lookup name = some node := by
  induction row with
  | nil => contradiction
  | cons entry rest ih =>
      obtain ⟨less, namesOfRest⟩ := List.pairwise_cons.mp names
      cases List.mem_cons.mp member with
      | inl here =>
          subst here
          exact List.lookup_cons_self
      | inr later =>
          have lower := less (name, node) later
          have differs : name ≠ entry.1 := by
            rintro rfl
            rw [Name.order_self] at lower
            contradiction
          rw [List.lookup_cons, beq_false_of_ne differs, ih namesOfRest later]

theorem mem_put {name : Name} {entry : Name × Node} (member : entry ∈ put name new row) :
    entry ∈ row ∨ new = some entry.2 := by
  simp only [put, List.mem_append, List.mem_filter, Option.mem_toList,
    Option.map_eq_some_iff] at member
  obtain before | ⟨node, isNew, rfl⟩ | behind := member
  · exact .inl before.1
  · exact .inr isNew
  · exact .inl behind.1

theorem pairwise_put (name : Name) (new : Option Node)
    (names : row.Pairwise fun first second => Name.order first.1 second.1 = .lt) :
    (put name new row).Pairwise fun first second => Name.order first.1 second.1 = .lt := by
  have only : ∀ entry ∈ (new.map fun node => (name, node)).toList, entry.1 = name := by
    cases new <;> simp
  rw [put, List.pairwise_append, List.pairwise_append]
  refine ⟨names.filter _, ⟨?_, names.filter _, ?_⟩, ?_⟩
  · cases new <;> simp
  · intro first isNew second behind
    rw [only first isNew]
    simpa using (List.mem_filter.mp behind).2
  · intro first before second later
    have less : Name.order first.1 name = .lt := by simpa using (List.mem_filter.mp before).2
    cases List.mem_append.mp later with
    | inl isNew => rwa [only second isNew]
    | inr behind => exact Std.TransCmp.lt_trans less (by simpa using (List.mem_filter.mp behind).2)

/-! ## What is at a location -/

@[simp] theorem get?_nil (found : Option Node) : get? [] found = found := rfl

@[simp] theorem get?_cons (name : Name) (rest : Location) (found : Option Node) :
    get? (name :: rest) found = get? rest ((inside found).lookup name) := rfl

theorem get?_append (above below : Location) (found : Option Node) :
    get? (above ++ below) found = get? below (get? above found) := by
  induction above generalizing found with
  | nil => rfl
  | cons name rest ih => exact ih _

@[simp] theorem get?_none (location : Location) : get? location none = none := by
  induction location with
  | nil => rfl
  | cons name rest ih => exact ih

/-- What holds a node is a directory. -/
theorem get?_eq_directory {node : Node} (isThere : get? location found = some node)
    (above : place <+: location) (differs : place ≠ location) :
    ∃ row, get? place found = some (.directory row) := by
  obtain ⟨below, rfl⟩ := above
  rw [get?_append] at isThere
  cases below with
  | nil => exact absurd (List.append_nil place).symm differs
  | cons name rest =>
      rw [get?_cons] at isThere
      cases holder : get? place found with
      | none => simp [holder, inside] at isThere
      | some node =>
          cases node with
          | file => simp [holder, inside] at isThere
          | directory row => exact ⟨row, rfl⟩

/-- What is put at a location is found there, with directories above it, and what
lies elsewhere stays. -/
theorem sight_set (new : Option Node) (location : Location) (found : Option Node)
    (place : Location) :
    sight (get? place (set new location found)) =
      if location <+: place then sight (get? (place.drop location.length) new)
      else if place <+: location then .directory
      else sight (get? place found) := by
  induction location generalizing found place with
  | nil => simp [set]
  | cons name rest ih =>
      cases place with
      | nil => simp [set, sight]
      | cons other more =>
          rw [set, get?_cons, inside, lookup_put]
          by_cases same : other = name
          · simp [same, ih, List.cons_prefix_cons]
          · simp [same, Ne.symm same, List.cons_prefix_cons]

/-! ## Order -/

theorem ordered_inside (ordered : ∀ node ∈ found, node.Ordered) :
    (Node.directory (inside found)).Ordered := by
  cases found with
  | none => exact .directory .nil nofun
  | some node =>
      cases node with
      | file => exact .directory .nil nofun
      | directory row => exact ordered _ rfl

theorem ordered_lookup (ordered : (Node.directory row).Ordered) (name : Name) :
    ∀ node ∈ row.lookup name, node.Ordered := by
  intro node isThere
  obtain ⟨front, back, rfl, -⟩ := List.lookup_eq_some_iff.mp isThere
  cases ordered with
  | directory names nodes => exact nodes (name, node) (by simp)

theorem ordered_get? (ordered : ∀ node ∈ found, node.Ordered) (location : Location) :
    ∀ node ∈ get? location found, node.Ordered := by
  induction location generalizing found with
  | nil => exact ordered
  | cons name rest ih => exact ih (ordered_lookup (ordered_inside ordered) name)

theorem ordered_file (text : String) : ∀ node ∈ some (Node.file text), node.Ordered := by
  intro node isFile
  cases isFile
  exact .file text

theorem ordered_emptyDirectory : ∀ node ∈ some (Node.directory []), node.Ordered := by
  intro node isDirectory
  cases isDirectory
  exact .directory .nil nofun

theorem ordered_set (ordered : ∀ node ∈ found, node.Ordered)
    (orderedNew : ∀ node ∈ new, node.Ordered) (location : Location) :
    ∀ node ∈ set new location found, node.Ordered := by
  induction location generalizing found with
  | nil => exact orderedNew
  | cons name rest ih =>
      intro node isThere
      cases isThere
      have orderedRow := ordered_inside ordered
      have orderedChild := ih (ordered_lookup orderedRow name)
      cases orderedRow with
      | directory names nodes =>
          refine .directory (pairwise_put name _ names) fun entry member => ?_
          cases mem_put member with
          | inl old => exact nodes entry old
          | inr isNew => exact orderedChild entry.2 isNew

end Nested.Node

end Memory

end ScriptView
