import ScriptView.Proofs.Disk.Follow

/-!
# Sound trees

A disk keeps entries only under names that a path can have as a segment, and in no directory
two of one name. Changes at such names keep a tree sound.
-/

namespace ScriptView.Disk

variable {top new node : Node} {address : Address} {name path directory : String}
  {entries : List (String × Node)}

/-- A text that a directory can keep an entry under. -/
structure IsFileName (name : String) : Prop extends LeadsDown name where
  isSegment : IsSegment name
  noNul : hasNul name = false

instance (name : String) : Decidable (IsFileName name) :=
  decidable_of_iff (isVoid name = false ∧ name ≠ ".." ∧ name.utf8ByteSize ≤ nameLimit ∧
      '/' ∉ name.toList ∧ hasNul name = false)
    ⟨fun ⟨notVoid, notUp, short, isSegment, noNul⟩ => ⟨⟨notVoid, notUp, short⟩, isSegment, noNul⟩,
      fun isName => ⟨isName.notVoid, isName.notUp, isName.short, isName.isSegment, isName.noNul⟩⟩

theorem IsFileName.nonempty (isName : IsFileName name) : name ≠ "" := by
  rintro rfl
  exact absurd isName.notVoid (by decide)

/-- A tree that a disk can hold, with any links in it. -/
inductive Node.IsSound : Node → Prop where
  | file (bytes : ByteArray) : IsSound (.file bytes)
  | link (target : String) : IsSound (.link target)
  | directory {entries : List (String × Node)} :
      (∀ entry ∈ entries, IsFileName entry.1) → (entries.map Prod.fst).Nodup →
      (∀ entry ∈ entries, entry.2.IsSound) → IsSound (.directory entries)

theorem Node.perm_insertEntry (name : String) (new : Node) (entries : List (String × Node)) :
    (Node.insertEntry name new entries).Perm ((name, new) :: entries) := by
  induction entries with
  | nil => exact .refl _
  | cons entry rest ih =>
      rw [Node.insertEntry]
      split
      · exact .refl _
      · exact (ih.cons _).trans (.swap _ _ _)

namespace Node.IsSound

theorem distinct (sound : (Node.directory entries).IsSound) : (entries.map Prod.fst).Nodup := by
  cases sound with
  | directory named distinct inside => exact distinct

theorem of_mem (sound : (Node.directory entries).IsSound) (member : (name, node) ∈ entries) :
    IsFileName name ∧ node.IsSound := by
  cases sound with
  | directory named distinct inside => exact ⟨named _ member, inside _ member⟩

/-- What is in a sound tree is sound and has an address of file names. -/
theorem get? (sound : top.IsSound) (found : top.get? address = some node) :
    node.IsSound ∧ ∀ name ∈ address, IsFileName name := by
  induction address generalizing top with
  | nil =>
      cases found
      exact ⟨sound, by simp⟩
  | cons name rest ih =>
      obtain ⟨entries, child, rfl, isChild, inside⟩ := Node.exists_entry_of_get? found
      obtain ⟨isName, soundChild⟩ := sound.of_mem ((Node.mem_iff_lookup sound.distinct).mpr isChild)
      obtain ⟨soundNode, names⟩ := ih soundChild inside
      exact ⟨soundNode, List.forall_mem_cons.mpr ⟨isName, names⟩⟩

/-- The entries of a directory are what is found in it. -/
theorem mem_entries_iff (sound : top.IsSound)
    (found : top.get? address = some (.directory entries)) :
    (name, node) ∈ entries ↔ top.get? (address ++ [name]) = some node := by
  rw [Node.mem_iff_lookup (sound.get? found).1.distinct, Node.get?_concat found]

theorem isFileName_of_mem (sound : top.IsSound)
    (found : top.get? address = some (.directory entries)) (member : (name, node) ∈ entries) :
    IsFileName name :=
  ((sound.get? found).1.of_mem member).1

/-- An entry under a new name leaves a directory sound. -/
theorem insertEntry (sound : (Node.directory entries).IsSound) (isName : IsFileName name)
    (absent : name ∉ entries.map Prod.fst) (soundNew : new.IsSound) :
    (Node.directory (Node.insertEntry name new entries)).IsSound := by
  have same := Node.perm_insertEntry name new entries
  cases sound with
  | directory named distinct inside =>
      refine .directory ?_ ((same.map Prod.fst).nodup_iff.mpr (List.nodup_cons.mpr ⟨absent, distinct⟩))
        ?_
      · intro entry member
        cases List.mem_cons.mp (same.mem_iff.mp member) with
        | inl here => exact here ▸ isName
        | inr old => exact named entry old
      · intro entry member
        cases List.mem_cons.mp (same.mem_iff.mp member) with
        | inl here => exact here ▸ soundNew
        | inr old => exact inside entry old

theorem filter (sound : (Node.directory entries).IsSound) (kept : String × Node → Bool) :
    (Node.directory (entries.filter kept)).IsSound := by
  cases sound with
  | directory named distinct inside =>
      refine .directory ?_ (distinct.sublist (List.filter_sublist.map Prod.fst)) ?_
      · intro entry member
        exact named entry (List.mem_of_mem_filter member)
      · intro entry member
        exact inside entry (List.mem_of_mem_filter member)

theorem alterEntry {change : Option Node → Option Node}
    (sound : (Node.directory entries).IsSound) (isName : IsFileName name)
    (soundNew : ∀ child, change (entries.lookup name) = some child → child.IsSound) :
    (Node.directory (Node.alterEntry name change entries)).IsSound := by
  have others := sound.filter (·.1 != name)
  have absent : name ∉ (entries.filter (·.1 != name)).map Prod.fst := by
    intro member
    obtain ⟨entry, isKept, same⟩ := List.mem_map.mp member
    have differs := (List.mem_filter.mp isKept).2
    simp [same] at differs
  rw [Node.alterEntry]
  split
  · next child isNew => exact others.insertEntry isName absent (soundNew child isNew)
  · exact others

/-- A tree stays sound when something sound is put under a file name. -/
theorem put (sound : top.IsSound) (names : ∀ name ∈ address, IsFileName name)
    (soundNew : new.IsSound) : (Node.put address new top).IsSound := by
  induction address generalizing top with
  | nil => exact soundNew
  | cons name rest ih =>
      rw [List.forall_mem_cons] at names
      cases sound with
      | file | link => cases rest <;> constructor
      | directory named distinct inside =>
          have soundHere : (Node.directory _).IsSound := .directory named distinct inside
          cases rest with
          | nil =>
              apply soundHere.alterEntry names.1
              intro child isNew
              cases isNew
              exact soundNew
          | cons next more =>
              apply soundHere.alterEntry names.1
              intro child isNew
              obtain ⟨old, isOld, rfl⟩ := Option.map_eq_some_iff.mp isNew
              have member := (Node.mem_iff_lookup distinct).mpr isOld
              exact ih (inside _ member) names.2

end Node.IsSound

/-! ## Paths in sound trees -/

/-- Different addresses have different paths. -/
theorem Address.text_injective {first second : Address} (firstNames : ∀ name ∈ first, IsFileName name)
    (secondNames : ∀ name ∈ second, IsFileName name)
    (same : Address.text first = Address.text second) : first = second := by
  have parts : ∀ address : Address, (∀ name ∈ address, IsFileName name) → address ≠ [] →
      segments (Address.text address) = "" :: address := by
    intro address names nonempty
    have slash := segments_append_slash "" (ofSegments address)
    rw [String.empty_append, segments_ofSegments (fun name member => (names name member).isSegment)
      nonempty] at slash
    exact slash
  have isTop : ∀ address : Address, (∀ name ∈ address, IsFileName name) →
      Address.text address = Address.text [] → address = [] := by
    intro address names top
    by_contra nonempty
    have void : segments (Address.text []) = ["", ""] := by decide +kernel
    rw [← top, parts address names nonempty] at void
    have isVoid := (List.cons.inj void).2
    rw [isVoid] at names
    exact (names "" List.mem_cons_self).nonempty rfl
  by_cases firstTop : first = []
  · rw [firstTop] at same ⊢
    exact (isTop second secondNames same.symm).symm
  · by_cases secondTop : second = []
    · rw [secondTop] at same ⊢
      exact isTop first firstNames same
    · have tails := congrArg segments same
      rw [parts first firstNames firstTop, parts second secondNames secondTop] at tails
      exact (List.cons.inj tails).2

theorem short_of_nodeAt (leads : nodeAt top path = .ok (address, node)) :
    path.utf8ByteSize < pathLimit :=
  (spot_eq_ok_iff.mp (nodeAt_eq_ok_iff_spot.mp leads).1).2.1

theorem readDirectory_eq_ok_iff_nodeAt :
    readDirectory top path = .ok entries ↔
      ∃ address, nodeAt top path = .ok (address, .directory entries) := by
  rw [readDirectory, bind_eq_ok_iff]
  constructor
  · intro runs
    obtain ⟨⟨address, node⟩, leads, isDirectory⟩ := runs
    cases node with
    | file | link => cases isDirectory
    | directory others =>
        cases isDirectory
        exact ⟨address, leads⟩
  · intro isThere
    obtain ⟨address, leads⟩ := isThere
    exact ⟨_, leads, rfl⟩

theorem isFileName_of_read (sound : top.IsSound) (read : readDirectory top directory = .ok entries)
    {entry : String × Node} (member : entry ∈ entries) : IsFileName entry.1 := by
  obtain ⟨address, leads⟩ := readDirectory_eq_ok_iff_nodeAt.mp read
  exact sound.isFileName_of_mem (nodeAt_eq_ok_iff_spot.mp leads).2 member

/-- The path of a directory with a name behind it leads to what the directory holds under this
name, unless it is a link or the path gets too long. -/
theorem nodeAt_join (sound : top.IsSound)
    (leads : nodeAt top directory = .ok (address, .directory entries))
    (found : top.get? (address ++ [name]) = some node) (notLink : node.isLink = false)
    (short : (join directory name).utf8ByteSize < pathLimit) :
    nodeAt top (join directory name) = .ok (address ++ [name], node) := by
  have isName : IsFileName name := (sound.get? found).2 name (by simp)
  obtain ⟨left, -, follows⟩ := exists_follow_join leads rfl isName.isSegment
  have noNul := (spot_eq_ok_iff.mp (nodeAt_eq_ok_iff_spot.mp leads).1).1
  rw [nodeAt_eq_ok_iff_spot, spot_eq_ok_iff, hasNul_join isName.isSegment, noNul, isName.noNul,
    follows .use trivial, follow_leadsDown isName.toLeadsDown (by simp), contentAt?, found]
  refine ⟨⟨rfl, short, ?_⟩, rfl⟩
  cases node with
  | file | directory => simp [Node.content]
  | link => contradiction

end ScriptView.Disk
