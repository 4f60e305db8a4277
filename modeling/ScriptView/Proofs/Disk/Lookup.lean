import Mathlib.Algebra.GroupWithZero.Nat
import Mathlib.Algebra.Order.BigOperators.Group.List
import Mathlib.Data.String.Basic
import ScriptView.Disk.Call
import ScriptView.Proofs.Location

/-!
# Nodes and their paths

In a tree without links the path of a node leads to that node, and a path without dots
leads to nothing else. The only thing that can keep a path from leading there is its
length.
-/

namespace ScriptView

/-! ## Addresses of locations -/

namespace Location

/-- The names of a location. -/
def address (location : Location) : Disk.Address :=
  location.map Name.text

theorem address_cons (name : Name) (rest : Location) :
    address (name :: rest) = name.text :: address rest := rfl

theorem address_append (front rest : Location) :
    address (front ++ rest) = address front ++ address rest :=
  List.map_append

theorem exists_address {address : Disk.Address} (names : ∀ name ∈ address, IsName name) :
    ∃ place : Location, place.address = address := by
  induction address with
  | nil => exact ⟨[], rfl⟩
  | cons name rest ih =>
      rw [List.forall_mem_cons] at names
      obtain ⟨place, rfl⟩ := ih names.2
      exact ⟨⟨name, names.1⟩ :: place, rfl⟩

theorem text_address (place : Location) : Disk.Address.text place.address = place.text := by
  cases place with
  | nil => rfl
  | cons name rest =>
      have names : (name :: rest).map (fun name => name.text.toList) ≠ [] := by simp
      apply String.toList_injective
      rw [toList_text_cons, ← List.flatMap_map (fun name : Name => name.text.toList) ('/' :: ·),
        ← slash_intercalate names, Disk.Address.text, address, String.toList_append,
        String.toList_intercalate, List.map_map]
      rfl

theorem split_eq_splitOn (path : List Char) : Disk.segments.split path = path.splitOn '/' := by
  induction path with
  | nil => rfl
  | cons c rest ih =>
      rw [Disk.segments.split, ih, List.splitOn_cons_eq_if_modifyHead]
      cases split : rest.splitOn '/' with
      | nil => exact absurd split (List.splitOn_ne_nil _ _)
      | cons first others => simp

theorem segments_text {place : Location} (nonempty : place ≠ root) :
    Disk.segments place.text = "" :: place.address := by
  cases place with
  | nil => contradiction
  | cons name rest =>
      rw [Disk.segments, split_eq_splitOn,
        ← segments_eq_splitOn (isCanonical_text (name :: rest)).noBackslash, segments_text_cons,
        List.map_cons, List.map_map, address]
      congr 1
      apply List.map_congr_left
      intro name _
      exact String.ofList_toList

/-- The path of a place has a byte more for each name than the names have. -/
theorem utf8ByteSize_text {place : Location} (nonempty : place ≠ root) :
    place.text.utf8ByteSize = (place.map fun name => name.text.utf8ByteSize + 1).sum := by
  have names : ∀ row : Location, String.utf8Len (row.flatMap fun name => '/' :: name.text.toList) =
      (row.map fun name => name.text.utf8ByteSize + 1).sum := by
    intro row
    induction row with
    | nil => rfl
    | cons name rest ih =>
        have slash : Char.utf8Size '/' = 1 := rfl
        rw [List.flatMap_cons, String.utf8Len_append, String.utf8Len_cons, ih, slash,
          ← String.utf8ByteSize_ofList, String.ofList_toList, List.map_cons, List.sum_cons]
  rw [← names, ← toList_text_of_ne_nil nonempty, ← String.utf8ByteSize_ofList,
    String.ofList_toList]

end Location

namespace Disk

/-! ## Plain trees -/

/-- Whether a disk can keep an entry under a name. Of the names that it can keep, those
with a backslash are left out. -/
def IsEntryName (name : String) : Prop :=
  IsName name ∧ hasNul name = false ∧ name.utf8ByteSize ≤ nameLimit

instance (name : String) : Decidable (IsEntryName name) :=
  inferInstanceAs (Decidable (_ ∧ _))

/-- A tree that a disk can hold, with neither links nor backslashes in names. A directory
has no two entries of one name. -/
inductive Node.IsPlain : Node → Prop where
  | file (bytes : ByteArray) : IsPlain (.file bytes)
  | directory {entries : List (String × Node)} :
      (∀ entry ∈ entries, IsEntryName entry.1) → (entries.map Prod.fst).Nodup →
      (∀ entry ∈ entries, entry.2.IsPlain) → IsPlain (.directory entries)

/-- A tree with at most so many directories on the way to a file. -/
inductive Node.IsLow : Nat → Node → Prop where
  | file (depth : Nat) (bytes : ByteArray) : IsLow depth (.file bytes)
  | directory {depth : Nat} {entries : List (String × Node)} :
      (∀ entry ∈ entries, entry.2.IsLow depth) → IsLow (depth + 1) (.directory entries)

/-- Every directory can be read. -/
def IsReadable (top : Node) : Prop :=
  ∀ address entries, top.get? address = some (.directory entries) →
    ∃ read, readDirectory top (Address.text address) = .ok read

namespace Node

variable {top node : Node} {address : Address} {entries : List (String × Node)} {name : String}

theorem get?_append (above below : Address) (top : Node) :
    top.get? (above ++ below) = (top.get? above).bind (get? below) := by
  induction above generalizing top with
  | nil => rfl
  | cons name rest ih =>
      rw [List.cons_append, get?_cons, get?_cons, Option.bind_assoc]
      congr 1
      funext child
      exact ih child

theorem get?_concat (found : top.get? address = some (.directory entries)) (name : String) :
    top.get? (address ++ [name]) = entries.lookup name := by
  rw [get?_append, found]
  cases held : entries.lookup name with
  | none => simp [child?, held]
  | some node => simp [child?, held]

/-- What has something in it is a directory. -/
theorem exists_entry_of_get? {rest : Address} (found : top.get? (name :: rest) = some node) :
    ∃ entries child, top = .directory entries ∧ entries.lookup name = some child ∧
      child.get? rest = some node := by
  obtain ⟨child, isChild, inside⟩ := Option.bind_eq_some_iff.mp found
  cases top with
  | file | link => simp [child?] at isChild
  | directory entries => exact ⟨entries, child, rfl, isChild, inside⟩

/-- An entry of a directory is what the directory holds under its name. -/
theorem mem_iff_lookup (distinct : (entries.map Prod.fst).Nodup) :
    (name, node) ∈ entries ↔ entries.lookup name = some node := by
  induction entries with
  | nil => simp
  | cons entry rest ih =>
      obtain ⟨first, child⟩ := entry
      rw [List.map_cons, List.nodup_cons] at distinct
      obtain ⟨fresh, distinctRest⟩ := distinct
      rw [lookup_entry_cons, List.mem_cons, Prod.mk.injEq]
      by_cases same : name = first
      · subst same
        have absent : (name, node) ∉ rest := by
          intro member
          have isThere : name ∈ rest.map Prod.fst := List.mem_map.mpr ⟨_, member, rfl⟩
          exact fresh isThere
        simp [absent, eq_comm (a := node)]
      · simp [same, ih distinctRest]

namespace IsPlain

theorem distinct (plain : (Node.directory entries).IsPlain) : (entries.map Prod.fst).Nodup := by
  cases plain with
  | directory named distinct inside => exact distinct

theorem entry (plain : (Node.directory entries).IsPlain) (found : entries.lookup name = some node) :
    IsEntryName name ∧ node.IsPlain := by
  cases plain with
  | directory named distinct inside =>
      have member := (mem_iff_lookup distinct).mpr found
      exact ⟨named _ member, inside _ member⟩

/-- What is in a plain tree is plain and has an address of entry names. -/
theorem get? (plain : top.IsPlain) (found : top.get? address = some node) :
    node.IsPlain ∧ ∀ name ∈ address, IsEntryName name := by
  induction address generalizing top with
  | nil =>
      cases found
      exact ⟨plain, by simp⟩
  | cons name rest ih =>
      obtain ⟨entries, child, rfl, isChild, inside⟩ := exists_entry_of_get? found
      obtain ⟨isEntryName, plainChild⟩ := plain.entry isChild
      obtain ⟨plainNode, names⟩ := ih plainChild inside
      exact ⟨plainNode, List.forall_mem_cons.mpr ⟨isEntryName, names⟩⟩

end IsPlain

/-- The directories of a low tree have short addresses. -/
theorem IsLow.length_lt {depth : Nat} (low : top.IsLow depth) (plain : top.IsPlain)
    (found : top.get? address = some (.directory entries)) : address.length < depth := by
  induction address generalizing top depth with
  | nil =>
      cases found
      cases low
      exact Nat.succ_pos _
  | cons name rest ih =>
      obtain ⟨others, child, rfl, isChild, inside⟩ := exists_entry_of_get? found
      cases low with
      | directory lowInside =>
          have member := (mem_iff_lookup plain.distinct).mpr isChild
          have shorter := ih (lowInside _ member) (plain.entry isChild).2 inside
          exact Nat.succ_lt_succ shorter

end Node

/-! ## Following a path -/

section Follow

variable {top node : Node} {pass : Address → List String → Except Fault Spot}
  {here address : Address} {place : Location} {entries : List (String × Node)}

/-- Names lead to what is at their address, if something is. -/
theorem followUpTo_eq_taken_iff (plain : top.IsPlain) (isHere : (top.get? here).isSome)
    (place : Location) :
    followUpTo top .use pass here place.address = .ok (.taken address) ↔
      address = here ++ place.address ∧ (top.get? address).isSome := by
  induction place generalizing here with
  | nil =>
      have names : Location.address [] = [] := rfl
      rw [names, followUpTo, List.append_nil]
      constructor
      · intro taken
        cases taken
        exact ⟨rfl, isHere⟩
      · intro isAddress
        rw [isAddress.1]
  | cons name rest ih =>
      obtain ⟨notEmpty, notDot, notDots, -⟩ := name.isName
      have notVoid : isVoid name.text = false := by simp [isVoid, notEmpty, notDot]
      rw [Location.address_cons, List.append_cons, followUpTo, notVoid, if_neg Bool.false_ne_true,
        if_neg notDots, if_neg (by simp)]
      cases there : top.get? (here ++ [name.text]) with
      | none =>
          constructor
          · intro taken
            split at taken
            · cases taken
            · simp only at taken
              split at taken
              · cases taken
              · cases taken
          · intro isAddress
            obtain ⟨rfl, isThere⟩ := isAddress
            rw [Node.get?_append, there] at isThere
            contradiction
      | some node =>
          obtain ⟨plainNode, names⟩ := plain.get? there
          have short := (names name.text (by simp)).2.2
          rw [if_neg (Nat.not_lt_of_le short)]
          cases node with
          | file bytes =>
              cases rest with
              | nil =>
                  constructor
                  · intro taken
                    cases taken
                    exact ⟨(List.append_nil _).symm, by rw [there]; rfl⟩
                  · intro isAddress
                    rw [isAddress.1]
                    exact congrArg _ (congrArg _ (List.append_nil _).symm)
              | cons next more =>
                  constructor
                  · intro taken
                    cases taken
                  · intro isAddress
                    obtain ⟨rfl, isThere⟩ := isAddress
                    rw [Node.get?_append, there] at isThere
                    contradiction
          | directory entries => exact ih (by rw [there]; rfl)
          | link target => nomatch plainNode

theorem hasNul_text (names : ∀ name ∈ place.address, IsEntryName name) :
    hasNul place.text = false := by
  rw [hasNul, List.contains_eq_mem, decide_eq_false_iff_not]
  intro member
  cases Location.mem_text member with
  | inl slash => contradiction
  | inr inName =>
      obtain ⟨name, isName, inside⟩ := inName
      have noNul := (names name.text (List.mem_map_of_mem isName)).2.1
      rw [hasNul, List.contains_eq_mem, decide_eq_false_iff_not] at noNul
      exact noNul inside

theorem bind_eq_ok_iff {α β : Type} {first : Except Fault α} {next : α → Except Fault β}
    {result : β} :
    first >>= next = .ok result ↔ ∃ value, first = .ok value ∧ next value = .ok result := by
  cases first with
  | error fault =>
      constructor
      · intro run
        cases run
      · intro runs
        obtain ⟨value, isValue, -⟩ := runs
        cases isValue
  | ok value =>
      constructor
      · intro run
        exact ⟨value, rfl, run⟩
      · intro runs
        obtain ⟨other, isValue, run⟩ := runs
        cases isValue
        exact run

theorem checked_eq_ok_iff {path text : String} :
    checked path = .ok text ↔
      text = path ∧ hasNul path = false ∧ path.utf8ByteSize < pathLimit := by
  rw [checked]
  split
  · next nul => simp [nul]
  · next noNul =>
    split
    · next long => simp [Nat.not_lt_of_le long]
    · next short => simp [noNul, Nat.lt_of_not_le short, eq_comm]

theorem follow_segments_text (top : Node) (place : Location) :
    follow top .use linkLimit [] (segments place.text) =
      followUpTo top .use (follow top .use (linkLimit - 1)) [] place.address := by
  cases place with
  | nil => rfl
  | cons name rest =>
      rw [Location.segments_text (List.cons_ne_nil _ _)]
      rfl

theorem spot_eq_taken_iff (plain : top.IsPlain) :
    spot top .use place.text = .ok (.taken address) ↔
      address = place.address ∧ (top.get? address).isSome ∧
        place.text.utf8ByteSize < pathLimit := by
  have leads := @followUpTo_eq_taken_iff top (follow top .use (linkLimit - 1)) [] address plain
    rfl place
  rw [List.nil_append] at leads
  have isFollow := follow_segments_text top place
  rw [spot, bind_eq_ok_iff]
  simp only [checked_eq_ok_iff]
  constructor
  · intro runs
    obtain ⟨text, ⟨rfl, -, short⟩, follows⟩ := runs
    obtain ⟨isAddress, isThere⟩ := leads.mp (isFollow ▸ follows)
    exact ⟨isAddress, isThere, short⟩
  · intro isThere
    obtain ⟨rfl, isSome, short⟩ := isThere
    obtain ⟨node, found⟩ := Option.isSome_iff_exists.mp isSome
    have noNul := hasNul_text (plain.get? found).2
    exact ⟨place.text, ⟨rfl, noNul, short⟩, isFollow ▸ leads.mpr ⟨rfl, isSome⟩⟩

/-- The path of a place leads to the node that is there, unless the path is too long. -/
theorem nodeAt_eq_ok_iff (plain : top.IsPlain) :
    nodeAt top place.text = .ok (address, node) ↔
      address = place.address ∧ top.get? address = some node ∧
        place.text.utf8ByteSize < pathLimit := by
  rw [nodeAt, bind_eq_ok_iff]
  constructor
  · intro runs
    obtain ⟨spot, isSpot, isNode⟩ := runs
    cases spot with
    | vacant directory name => cases isNode
    | taken other =>
        obtain ⟨isAddress, -, short⟩ := (spot_eq_taken_iff plain).mp isSpot
        rw [Spot.node] at isNode
        split at isNode
        · next found =>
          cases isNode
          exact ⟨isAddress, found, short⟩
        · cases isNode
  · intro isThere
    obtain ⟨isAddress, found, short⟩ := isThere
    refine ⟨.taken address, (spot_eq_taken_iff plain).mpr ⟨isAddress, by simp [found], short⟩, ?_⟩
    rw [Spot.node, found]

theorem readDirectory_eq_ok_iff (plain : top.IsPlain) :
    readDirectory top place.text = .ok entries ↔
      top.get? place.address = some (.directory entries) ∧
        place.text.utf8ByteSize < pathLimit := by
  rw [readDirectory, bind_eq_ok_iff]
  constructor
  · intro runs
    obtain ⟨⟨address, node⟩, leads, isDirectory⟩ := runs
    obtain ⟨rfl, found, short⟩ := (nodeAt_eq_ok_iff plain).mp leads
    cases node with
    | file | link => cases isDirectory
    | directory others =>
        cases isDirectory
        exact ⟨found, short⟩
  · intro isThere
    obtain ⟨found, short⟩ := isThere
    exact ⟨_, (nodeAt_eq_ok_iff plain).mpr ⟨rfl, found, short⟩, rfl⟩

theorem leadsToFile_iff (plain : top.IsPlain) :
    leadsToFile top place.text = true ↔
      (∃ bytes, top.get? place.address = some (.file bytes)) ∧
        place.text.utf8ByteSize < pathLimit := by
  rw [leadsToFile]
  constructor
  · intro leads
    split at leads
    · next address node isNode =>
      obtain ⟨rfl, found, short⟩ := (nodeAt_eq_ok_iff plain).mp isNode
      cases node with
      | file bytes => exact ⟨⟨bytes, found⟩, short⟩
      | link | directory => contradiction
    · contradiction
  · intro isThere
    obtain ⟨⟨bytes, found⟩, short⟩ := isThere
    rw [(nodeAt_eq_ok_iff plain).mpr ⟨rfl, found, short⟩]
    rfl

/-- Every directory can be read exactly if their paths are short. -/
theorem isReadable_iff (plain : top.IsPlain) :
    IsReadable top ↔ ∀ (place : Location) (entries : List (String × Node)),
      top.get? place.address = some (.directory entries) →
        place.text.utf8ByteSize < pathLimit := by
  constructor
  · intro readable place entries found
    obtain ⟨read, isRead⟩ := readable _ _ found
    rw [Location.text_address] at isRead
    exact ((readDirectory_eq_ok_iff plain).mp isRead).2
  · intro short address entries found
    obtain ⟨place, rfl⟩ := Location.exists_address fun name member =>
      ((plain.get? found).2 name member).1
    rw [Location.text_address]
    exact ⟨entries, (readDirectory_eq_ok_iff plain).mpr ⟨found, short place entries found⟩⟩

/-- Sixteen directories on one way can all be read, however long their names are. -/
theorem isReadable_of_isLow (plain : top.IsPlain) (low : top.IsLow 16) : IsReadable top := by
  apply (isReadable_iff plain).mpr
  intro place entries found
  by_cases isRoot : place = .root
  · rw [isRoot]
    decide
  · have names := (plain.get? found).2
    have length := low.length_lt plain found
    rw [Location.address, List.length_map] at length
    have bounded : ∀ bytes ∈ place.map (fun name => name.text.utf8ByteSize + 1),
        bytes ≤ nameLimit + 1 := by
      intro bytes member
      obtain ⟨name, isName, rfl⟩ := List.mem_map.mp member
      exact Nat.succ_le_succ (names name.text (List.mem_map_of_mem isName)).2.2
    have total := List.sum_le_card_nsmul _ _ bounded
    rw [← Location.utf8ByteSize_text isRoot, List.length_map] at total
    calc place.text.utf8ByteSize
      _ ≤ place.length * (nameLimit + 1) := total
      _ ≤ 15 * (nameLimit + 1) := Nat.mul_le_mul_right _ (Nat.le_of_lt_succ length)
      _ < pathLimit := by decide

end Follow

end Disk

end ScriptView
