import Mathlib.Data.List.TakeWhile
import ScriptView.Disk.Host
import ScriptView.Proofs.Disk.Follow
import ScriptView.Proofs.Host.Action

/-!
# Making directories

A directory is made at a free path only, and a call that makes none changes nothing. The
missing directories above a path are made one after the other, the one that is nearest to the
top first. Something is made exactly if one of the paths is free to begin with.
-/

namespace ScriptView.Disk

open ScriptView.Action

variable {top made left node : Node} {path last : String} {address directory here there : Address}
  {name : String} {fault : Fault} {links remaining : Nat}
  {row above front rest slashes : List String}

/-! ## Questions and calls -/

theorem ask_eq_ok_iff {α : Type} {question : Node → Except Fault α} {value : α} :
    ask question top = .ok value left ↔ question top = .ok value ∧ left = top := by
  rw [ask]
  cases question top with
  | ok => simp [eq_comm]
  | error => simp

theorem ask_eq_error_iff {α : Type} {question : Node → Except Fault α} :
    ask question top = .error fault left ↔ question top = .error fault ∧ left = top := by
  rw [ask]
  cases question top with
  | ok => simp
  | error => simp [eq_comm]

theorem get_bind {α : Type} {further : Node → Call α} :
    (get >>= further) top = further top top := rfl

theorem eq_ok_of_run {α : Type} {toError : Fault → Error} {call : Call α} {value : α}
    (ends : run toError call top = .ok value left) : call top = .ok value left := by
  rw [run] at ends
  cases result : call top with
  | ok other between =>
      rw [result] at ends
      cases ends
      rfl
  | error fault between =>
      rw [result] at ends
      cases ends

theorem exists_of_run_eq_error {α : Type} {toError : Fault → Error} {call : Call α}
    (fails : run toError call top = .error error left) : ∃ fault, call top = .error fault left := by
  rw [run] at fails
  cases ends : call top with
  | ok value other =>
      rw [ends] at fails
      cases fails
  | error fault other =>
      rw [ends] at fails
      cases fails
      exact ⟨fault, rfl⟩

theorem leaves_run {α : Type} {toError : Fault → Error} {call : Call α}
    (leaves : Leaves (run toError call) top left) : Leaves call top left := by
  rcases leaves with ⟨value, ends⟩ | ⟨error, fails⟩
  · exact leaves_of_ok (eq_ok_of_run ends)
  · obtain ⟨fault, failsAt⟩ := exists_of_run_eq_error fails
    exact leaves_of_error failsAt

/-! ## The end of a path -/

theorem Passes.isDirectory (passes : Passes top links here row remaining there)
    (isTop : contentAt? top [] = some .directory)
    (isHere : contentAt? top here = some .directory) :
    contentAt? top there = some .directory := by
  induction passes with
  | here => exact isHere
  | void _ _ ih => exact ih isHere
  | up _ ih => exact ih (isDirectory_of_isPrefix (List.dropLast_prefix _) isHere)
  | down _ found _ ih => exact ih found
  | link _ _ _ ih =>
      apply ih
      split
      · exact isTop
      · exact isHere

/-- What is followed with a slash behind it passes through directories. -/
theorem exists_passes_of_slash
    (ends : follow top .use links here (front ++ [""]) = .ok (.taken address)) :
    ∃ remaining, Passes top links here front remaining address := by
  obtain ⟨remaining, there, passes⟩ := exists_passes ends fun _ =>
    ⟨address, rfl, fun nothing => absurd nothing (List.cons_ne_nil _ _)⟩
  rw [passes.follow_use, follow_void (by decide), follow_nil] at ends
  cases ends
  exact ⟨remaining, passes⟩

/-- What can be followed can be followed up to any place in it. -/
theorem checked_of_append {front tail : String}
    (isChecked : checked (front ++ tail) = .ok (front ++ tail)) : checked front = .ok front := by
  obtain ⟨-, noNul, short⟩ := checked_eq_ok_iff.mp isChecked
  rw [hasNul_append, Bool.or_eq_false_iff] at noNul
  rw [String.utf8ByteSize_append] at short
  exact checked_eq_ok_iff.mpr ⟨rfl, noNul.1, Nat.lt_of_le_of_lt (Nat.le_add_right _ _) short⟩

/-- The kind of a last segment. -/
def LastSegment.of (segment : String) : LastSegment :=
  if segment = "." then .dot else if segment = ".." then .dots else .name segment

theorem LastSegment.of_eq_name_iff :
    LastSegment.of last = .name name ↔ last = name ∧ last ≠ "." ∧ last ≠ ".." := by
  rw [LastSegment.of]
  split
  · next isDot => simp [isDot]
  · split
    · next isUp => simp [isUp]
    · next notDot notUp => simp [notDot, notUp]

/-- Segments are slashes only or have a last one that is not empty. -/
theorem onlySlashes_or_exists_last (row : List String) :
    isOnlySlashes row = true ∨
      ∃ front last slashes, row = front ++ last :: slashes ∧ isOnlySlashes slashes = true ∧
        last ≠ "" := by
  induction row with
  | nil => exact .inl rfl
  | cons segment row ih =>
      rcases ih with onlySlashes | ⟨front, last, slashes, rfl, onlySlashes, nonempty⟩
      · by_cases empty : segment = ""
        · exact .inl (by simpa [isOnlySlashes, empty] using onlySlashes)
        · exact .inr ⟨[], segment, row, rfl, onlySlashes, empty⟩
      · exact .inr ⟨segment :: front, last, slashes, rfl, onlySlashes, nonempty⟩

theorem splitLast_of_last (isChecked : checked path = .ok path)
    (isRow : segments path = front ++ last :: slashes) (onlySlashes : isOnlySlashes slashes = true)
    (nonempty : last ≠ "") :
    splitLast top path =
      match follow top .use linkLimit [] (front ++ [""]) with
      | .error fault => .error fault
      | .ok (.vacant _ _) => .error .noEntry
      | .ok (.taken address) => .ok (address, .of last) := by
  have ending : (segments path).reverse.dropWhile (· == "") = last :: front.reverse := by
    rw [isRow, List.reverse_append, List.reverse_cons, List.append_assoc,
      List.dropWhile_append_of_pos, List.singleton_append, List.dropWhile_cons_of_neg]
    · simpa using nonempty
    · intro segment member
      exact List.all_eq_true.mp onlySlashes segment (List.mem_reverse.mp member)
  rw [splitLast, isChecked]
  dsimp only [bind, Except.bind]
  rw [ending, List.tail_cons, List.reverse_reverse]
  cases follow top .use linkLimit [] (front ++ [""]) with
  | error fault => rfl
  | ok goal =>
      cases goal with
      | vacant => rfl
      | taken address =>
          dsimp only [List.head?_cons]
          rw [LastSegment.of]
          split
          · contradiction
          · next same =>
            cases same
            rfl
          · next same =>
            cases same
            rfl
          · next name notDot notUp same =>
            cases same
            rw [if_neg (by simpa using notDot), if_neg (by simpa using notUp)]
            rfl

theorem isVoid_eq_false (nonempty : last ≠ "") (notDot : last ≠ ".") : isVoid last = false := by
  rw [isVoid, Bool.or_eq_false_iff]
  exact ⟨beq_eq_false_iff_ne.mpr nonempty, beq_eq_false_iff_ne.mpr notDot⟩

theorem splitLast_of_onlySlashes (isChecked : checked path = .ok path)
    (onlySlashes : isOnlySlashes (segments path) = true) : splitLast top path = .ok ([], .none) := by
  have ending : (segments path).reverse.dropWhile (· == "") = [] := by
    refine List.dropWhile_eq_nil_iff.mpr ?_
    intro segment member
    exact List.all_eq_true.mp onlySlashes segment (List.mem_reverse.mp member)
  rw [splitLast, isChecked]
  dsimp only [bind, Except.bind]
  rw [ending]
  rfl

/-- What a path is split into if it ends in a name. -/
theorem exists_last_of_splitLast (isName : splitLast top path = .ok (directory, .name name)) :
    checked path = .ok path ∧ ∃ front slashes remaining, segments path = front ++ name :: slashes ∧
      isOnlySlashes slashes = true ∧ isVoid name = false ∧ name ≠ ".." ∧
      Passes top linkLimit [] front remaining directory := by
  have isChecked : checked path = .ok path := by
    rw [splitLast] at isName
    obtain ⟨text, isText, -⟩ := bind_eq_ok_iff.mp isName
    rw [(checked_eq_ok_iff.mp isText).1] at isText
    exact isText
  refine ⟨isChecked, ?_⟩
  rcases onlySlashes_or_exists_last (segments path) with
    onlySlashes | ⟨front, last, slashes, isRow, onlySlashes, nonempty⟩
  · rw [splitLast_of_onlySlashes isChecked onlySlashes] at isName
    cases isName
  · rw [splitLast_of_last isChecked isRow onlySlashes nonempty] at isName
    split at isName
    · cases isName
    · cases isName
    · next address ends =>
      obtain ⟨same, isLast⟩ := Prod.ext_iff.mp (Except.ok.inj isName)
      obtain ⟨rfl, notDot, notUp⟩ := LastSegment.of_eq_name_iff.mp isLast
      cases same
      obtain ⟨remaining, passes⟩ := exists_passes_of_slash ends
      exact ⟨front, slashes, remaining, isRow, onlySlashes, isVoid_eq_false nonempty notDot, notUp,
        passes⟩

/-- A path whose end is in nothing, or behind a name that leads to nothing. -/
theorem splitLast_eq_noEntry (isChecked : checked path = .ok path)
    (isRow : segments path = front ++ name :: rest) (goesOn : isOnlySlashes rest = false)
    (passes : Passes top linkLimit [] front remaining directory) (leads : LeadsDown name)
    (missing : contentAt? top (directory ++ [name]) = none) :
    splitLast top path = .error .noEntry := by
  rcases onlySlashes_or_exists_last rest with
    onlySlashes | ⟨further, last, slashes, rfl, onlySlashes, nonempty⟩
  · rw [goesOn] at onlySlashes
    contradiction
  · rw [← List.cons_append, ← List.append_assoc] at isRow
    rw [splitLast_of_last isChecked isRow onlySlashes nonempty, List.append_assoc, List.cons_append,
      passes.follow_use, follow_leadsDown leads (by simp), missing]
    by_cases onlySlashes : isOnlySlashes (further ++ [""]) = true
    · simp only [if_pos onlySlashes]
    · simp only [if_neg onlySlashes]

/-! ## One directory -/

/-- A path at which a directory can be made: the directory that its last name is in exists and
holds nothing of this name. -/
def IsFree (top : Node) (path : String) : Prop :=
  ∃ directory name, splitLast top path = .ok (directory, .name name) ∧
    name.utf8ByteSize ≤ nameLimit ∧ top.get? (directory ++ [name]) = none

theorem makeDirectory_eq :
    makeDirectory path top =
      match splitLast top path with
      | .error fault => .error fault top
      | .ok (directory, .name name) =>
          if nameLimit < name.utf8ByteSize then .error .nameTooLong top
          else if (top.get? (directory ++ [name])).isSome then .error .entryExists top
          else .ok () (Node.put (directory ++ [name]) (.directory []) top)
      | .ok _ => .error .entryExists top := by
  rw [makeDirectory]
  cases split : splitLast top path with
  | error fault =>
      have asked : ask (splitLast · path) top = .error fault top := ask_eq_error_iff.mpr ⟨split, rfl⟩
      exact bind_of_error asked
  | ok found =>
      have asked : ask (splitLast · path) top = .ok found top := ask_eq_ok_iff.mpr ⟨split, rfl⟩
      rw [bind_of_ok asked]
      obtain ⟨directory, ending⟩ := found
      cases ending with
      | dot | dots | none => rfl
      | name name =>
          dsimp only
          split
          · rfl
          · rw [get_bind]
            split
            · rfl
            · rfl

/-- A directory is made where its path is free, and nothing else changes. -/
theorem makeDirectory_eq_ok_iff :
    makeDirectory path top = .ok () made ↔
      ∃ directory name, splitLast top path = .ok (directory, .name name) ∧
        name.utf8ByteSize ≤ nameLimit ∧ top.get? (directory ++ [name]) = none ∧
        Node.put (directory ++ [name]) (.directory []) top = made := by
  rw [makeDirectory_eq]
  split
  · next fault isSplit => simp [isSplit]
  · next directory name isSplit =>
    by_cases long : nameLimit < name.utf8ByteSize
    · simp [isSplit, long, Nat.not_le_of_lt long]
    · cases found : top.get? (directory ++ [name]) with
      | none => simp [isSplit, long, Nat.le_of_not_lt long, found]
      | some node => simp [isSplit, long, found]
  · next found notName isSplit =>
    constructor
    · intro ends
      cases ends
    · intro free
      obtain ⟨directory, name, isName, -⟩ := free
      rw [isSplit] at isName
      exact absurd (Except.ok.inj isName) (notName directory name)

theorem isFree_iff : IsFree top path ↔ ∃ made, makeDirectory path top = .ok () made := by
  simp only [makeDirectory_eq_ok_iff]
  constructor
  · intro free
    obtain ⟨directory, name, isName, short, missing⟩ := free
    exact ⟨_, directory, name, isName, short, missing, rfl⟩
  · intro makes
    obtain ⟨made, directory, name, isName, short, missing, -⟩ := makes
    exact ⟨directory, name, isName, short, missing⟩

theorem eq_of_makeDirectory_eq_error (fails : makeDirectory path top = .error fault left) :
    left = top := by
  rw [makeDirectory_eq] at fails
  split at fails
  · cases fails
    rfl
  · split at fails
    · cases fails
      rfl
    · split at fails
      · cases fails
        rfl
      · cases fails
  · cases fails
    rfl

/-- A new directory is all that is changed. -/
theorem exists_made (isTop : contentAt? top [] = some .directory)
    (makes : makeDirectory path top = .ok () made) :
    ∃ directory name, splitLast top path = .ok (directory, .name name) ∧
      contentAt? top directory = some .directory ∧ contentAt? top (directory ++ [name]) = none ∧
      ∀ other, contentAt? made other =
        if other = directory ++ [name] then some .directory else contentAt? top other := by
  obtain ⟨directory, name, isName, -, missing, rfl⟩ := makeDirectory_eq_ok_iff.mp makes
  obtain ⟨-, front, slashes, remaining, -, -, -, -, passes⟩ := exists_last_of_splitLast isName
  have isDirectory := passes.isDirectory isTop isTop
  have free := contentAt?_eq_none_iff.mpr missing
  exact ⟨directory, name, isName, isDirectory, free,
    contentAt?_put isDirectory (by simp [free]) (fun _ => rfl)⟩

/-- No directory is made where something is. -/
theorem makeDirectory_of_leads (leads : nodeAt top path = .ok (address, node)) :
    makeDirectory path top = .error .entryExists top := by
  obtain ⟨isSpot, -⟩ := nodeAt_eq_ok_iff_spot.mp leads
  obtain ⟨noNul, short, ends⟩ := spot_eq_ok_iff.mp isSpot
  have isChecked := checked_eq_ok_iff.mpr ⟨rfl, noNul, short⟩
  rcases onlySlashes_or_exists_last (segments path) with
    onlySlashes | ⟨front, last, slashes, isRow, onlySlashes, nonempty⟩
  · rw [makeDirectory_eq, splitLast_of_onlySlashes isChecked onlySlashes]
  · rw [isRow] at ends
    obtain ⟨remaining, there, passes⟩ := exists_passes ends fun void => by
      simp [isOnlySlashes, nonempty] at void
    rw [makeDirectory_eq, splitLast_of_last isChecked isRow onlySlashes nonempty,
      passes.follow_use, follow_void (by decide), follow_nil]
    rw [passes.follow_use] at ends
    cases isLast : LastSegment.of last with
    | dot | dots | none => rfl
    | name name =>
        obtain ⟨rfl, notDot, notUp⟩ := LastSegment.of_eq_name_iff.mp isLast
        obtain ⟨isName, -⟩ := leadsDown_of_follow ends (isVoid_eq_false nonempty notDot) notUp
        have found : (top.get? (there ++ [last])).isSome = true := by
          by_contra missing
          have nothing := contentAt?_eq_none_iff.mpr (Option.not_isSome_iff_eq_none.mp missing)
          rw [follow_leadsDown isName (by simp), nothing] at ends
          dsimp only at ends
          split at ends
          · cases ends
          · cases ends
        simp [Nat.not_lt_of_le isName.short, found]

/-! ## Directories in a row -/

/-- What is there stays there. -/
def Grows (before after : Node) : Prop :=
  ∀ address, contentAt? before address ≠ none → contentAt? after address ≠ none

theorem grows_of_makeDirectory (isTop : contentAt? top [] = some .directory)
    (makes : makeDirectory path top = .ok () made) :
    contentAt? made [] = some .directory ∧ Grows top made := by
  obtain ⟨directory, name, -, -, -, put⟩ := exists_made isTop makes
  constructor
  · rw [put, if_neg (by simp)]
    exact isTop
  · intro address isThere
    rw [put]
    split
    · simp
    · exact isThere

theorem makeFirst_cons :
    makeFirst (path :: above) top =
      match makeDirectory path top with
      | .ok _ made => .ok () made
      | .error .noEntry _ =>
          match makeFirst above top with
          | .error fault changed => .error fault changed
          | .ok _ changed =>
              match makeDirectory path changed with
              | .ok _ made => .ok () made
              | .error fault _ =>
                  if leadsToDirectory changed path then .ok () changed else .error fault changed
      | .error fault _ =>
          if leadsToDirectory top path then .ok () top else .error fault top := by
  rfl

theorem makeFirst_of_ok (makes : makeDirectory path top = .ok () made) :
    makeFirst (path :: above) top = .ok () made := by
  rw [makeFirst_cons, makes]

/-- If it is not the directory above that is missing, the others are not looked at. -/
theorem makeFirst_of_error (fails : makeDirectory path top = .error fault top)
    (isThere : fault ≠ .noEntry) :
    makeFirst (path :: above) top =
      if leadsToDirectory top path then .ok () top else .error fault top := by
  rw [makeFirst_cons, fails]
  split
  · next same => cases same
  · next same =>
    cases same
    contradiction
  · next same =>
    cases same
    rfl

/-- The first directory is made, or cannot be made whatever is above it, or is made when the
others are there. -/
theorem leaves_makeFirst_cons (leaves : Leaves (makeFirst (path :: above)) top left) :
    makeDirectory path top = .ok () left ∨
      (∃ fault, makeDirectory path top = .error fault top ∧ fault ≠ .noEntry ∧ left = top) ∨
      (makeDirectory path top = .error .noEntry top ∧
        ∃ between, Leaves (makeFirst above) top between ∧
          (left = between ∨ makeDirectory path between = .ok () left)) := by
  cases makes : makeDirectory path top with
  | ok value made =>
      rw [eq_of_leaves_of_ok leaves (makeFirst_of_ok makes)]
      exact .inl rfl
  | error fault same =>
      cases eq_of_makeDirectory_eq_error makes
      by_cases missing : fault = .noEntry
      · cases missing
        refine .inr (.inr ⟨rfl, ?_⟩)
        cases goesOn : makeFirst above top with
        | error fault between =>
            have ends : makeFirst (path :: above) top = .error fault between := by
              rw [makeFirst_cons, makes]
              simp only [goesOn]
            exact ⟨between, leaves_of_error goesOn, .inl (eq_of_leaves_of_error leaves ends)⟩
        | ok value between =>
            refine ⟨between, leaves_of_ok goesOn, ?_⟩
            have ends : makeFirst (path :: above) top = _ := makeFirst_cons
            rw [makes] at ends
            simp only [goesOn] at ends
            split at ends
            · next made again =>
              rw [eq_of_leaves_of_ok leaves ends]
              exact .inr again
            · split at ends
              · exact .inl (eq_of_leaves_of_ok leaves ends)
              · exact .inl (eq_of_leaves_of_error leaves ends)
      · refine .inr (.inl ⟨fault, rfl, missing, ?_⟩)
        have ends : makeFirst (path :: above) top = _ := makeFirst_of_error makes missing
        split at ends
        · exact eq_of_leaves_of_ok leaves ends
        · exact eq_of_leaves_of_error leaves ends

/-- When the first directory is there in the end, it is made last, or was there before. -/
theorem makes_or_leads_of_makeFirst (ends : makeFirst (path :: above) top = .ok () made) :
    (∃ between, (between = top ∨ Leaves (makeFirst above) top between) ∧
      makeDirectory path between = .ok () made) ∨ leadsToDirectory made path = true := by
  rw [makeFirst_cons] at ends
  split at ends
  · next makes =>
    cases ends
    exact .inl ⟨top, .inl rfl, makes⟩
  · split at ends
    · cases ends
    · next between makesAbove =>
      split at ends
      · next makes =>
        cases ends
        exact .inl ⟨between, .inr (leaves_of_ok makesAbove), makes⟩
      · split at ends
        · next leads =>
          cases ends
          exact .inr leads
        · cases ends
  · split at ends
    · next leads =>
      cases ends
      exact .inr leads
    · cases ends

/-- Nothing is made at a path that cannot be followed. -/
theorem makeFirst_of_unchecked (notChecked : checked path ≠ .ok path) (above : List String)
    (top : Node) : ∃ fault, makeFirst (path :: above) top = .error fault top := by
  have fails : ∃ fault, checked path = .error fault ∧ fault ≠ .noEntry := by
    rw [checked] at notChecked ⊢
    split
    · exact ⟨_, rfl, by simp⟩
    · split
      · exact ⟨_, rfl, by simp⟩
      · simp_all
  obtain ⟨fault, isFault, notNoEntry⟩ := fails
  have isSplit : splitLast top path = .error fault := by rw [splitLast, isFault]; rfl
  have leadsNowhere : leadsToDirectory top path = false := by
    rw [leadsToDirectory, nodeAt, spot, isFault]
    rfl
  have failsAt : makeDirectory path top = .error fault top := by rw [makeDirectory_eq, isSplit]
  refine ⟨fault, ?_⟩
  rw [makeFirst_of_error failsAt notNoEntry, leadsNowhere, if_neg Bool.false_ne_true]

/-- What making directories keeps is kept in a row of them. -/
theorem holds_of_leaves_makeFirst (property : Node → Prop)
    (leaves : Leaves (makeFirst row) top left)
    (keeps : ∀ path ∈ row, ∀ before after, property before →
      makeDirectory path before = .ok () after → property after)
    (holds : property top) : property left := by
  induction row generalizing left with
  | nil => exact eq_of_leaves_of_error leaves rfl ▸ holds
  | cons path above ih =>
      rcases leaves_makeFirst_cons leaves with makes | ⟨-, -, -, same⟩ |
        ⟨-, between, further, same | makes⟩
      · exact keeps path List.mem_cons_self _ _ holds makes
      · exact same ▸ holds
      · exact same ▸ ih further fun other member => keeps other (List.mem_cons_of_mem _ member)
      · have holdsBetween := ih further fun other member =>
          keeps other (List.mem_cons_of_mem _ member)
        exact keeps path List.mem_cons_self _ _ holdsBetween makes

/-- Where no path is free, nothing is made. -/
theorem eq_or_exists_free (leaves : Leaves (makeFirst row) top left) :
    left = top ∨ ∃ path ∈ row, IsFree top path := by
  induction row generalizing left with
  | nil => exact .inl (eq_of_leaves_of_error leaves rfl)
  | cons path above ih =>
      rcases leaves_makeFirst_cons leaves with makes | ⟨-, -, -, same⟩ |
        ⟨missing, between, further, last⟩
      · exact .inr ⟨path, List.mem_cons_self, isFree_iff.mpr ⟨left, makes⟩⟩
      · exact .inl same
      · rcases ih further with rfl | ⟨other, member, free⟩
        · rcases last with same | makes
          · exact .inl same
          · rw [missing] at makes
            cases makes
        · exact .inr ⟨other, List.mem_cons_of_mem _ member, free⟩

/-- Nothing is made where a directory further up is missing. -/
theorem splitLast_of_free_above (areSegments : ∀ segment ∈ above, IsSegment segment)
    (isChecked : checked (pathUpTo above) = .ok (pathUpTo above)) (member : path ∈ parentsOf above)
    (free : IsFree top path) : splitLast top (pathUpTo above) = .error .noEntry := by
  obtain ⟨below, segment, rest, rfl, notVoid, rfl⟩ := mem_parentsOf_iff.mp member
  obtain ⟨directory, name, isName, short, missing⟩ := free
  obtain ⟨-, front, slashes, remaining, isRow, -, notVoidName, notUp, passes⟩ :=
    exists_last_of_splitLast isName
  obtain ⟨behind, isBehind, isWhole⟩ := exists_segments_behind areSegments notVoid
  have restSegments : ∀ segment ∈ rest, IsSegment segment := by
    intro other isOther
    exact areSegments other (List.mem_append_right _ (List.mem_cons_of_mem _ isOther))
  rcases segments_pathUpTo restSegments with ⟨isTop, -⟩ | parts
  · have isVoidName : name ∈ segments "/" := by
      rw [← isTop, isRow]
      simp
    have void : ∀ segment ∈ segments "/", isVoid segment = true := by decide +kernel
    rw [void name isVoidName] at notVoidName
    cases notVoidName
  · rw [← parts, isRow, List.append_assoc, List.cons_append] at isWhole
    apply splitLast_eq_noEntry isChecked isWhole _ passes ⟨notVoidName, notUp, short⟩
      (contentAt?_eq_none_iff.mpr missing)
    rw [Bool.eq_false_iff]
    intro onlySlashes
    have empty := List.all_eq_true.mp onlySlashes segment (List.mem_append_right _ isBehind)
    rw [beq_iff_eq.mp empty] at notVoid
    cases notVoid

/-- The top stays a directory, and all that is there stays there. -/
theorem grows_of_leaves_makeFirst (isTop : contentAt? top [] = some .directory)
    (leaves : Leaves (makeFirst row) top left) :
    contentAt? left [] = some .directory ∧ Grows top left := by
  apply holds_of_leaves_makeFirst
    (fun node => contentAt? node [] = some .directory ∧ Grows top node) leaves
  · intro path _ before after holds makes
    obtain ⟨isTopAfter, grows⟩ := grows_of_makeDirectory holds.1 makes
    exact ⟨isTopAfter, fun address isThere => grows address (holds.2 address isThere)⟩
  · exact ⟨isTop, fun _ isThere => isThere⟩

theorem exists_new_of_free_first (isTop : contentAt? top [] = some .directory)
    (free : IsFree top path) (leaves : Leaves (makeFirst (path :: above)) top left) :
    ∃ address, contentAt? top address = none ∧ contentAt? left address ≠ none := by
  obtain ⟨made, makes⟩ := isFree_iff.mp free
  obtain ⟨directory, name, -, -, missing, put⟩ := exists_made isTop makes
  rw [eq_of_leaves_of_ok leaves (makeFirst_of_ok makes)]
  exact ⟨directory ++ [name], missing, by simp [put]⟩

/-- Where one of the paths is free, something is made. -/
theorem exists_new_of_free (isTop : contentAt? top [] = some .directory)
    (areSegments : ∀ segment ∈ above, IsSegment segment)
    (areChecked : ∀ path ∈ parentsOf above, checked path = .ok path)
    (leaves : Leaves (makeFirst (parentsOf above)) top left)
    (free : ∃ path ∈ parentsOf above, IsFree top path) :
    ∃ address, contentAt? top address = none ∧ contentAt? left address ≠ none := by
  induction above generalizing left with
  | nil =>
      obtain ⟨path, member, -⟩ := free
      cases member
  | cons segment above ih =>
      rw [List.forall_mem_cons] at areSegments
      rw [parentsOf_cons] at areChecked leaves free
      split at leaves
      · next void =>
        rw [if_pos void] at areChecked free
        exact ih areSegments.2 areChecked leaves free
      · next notVoid =>
        rw [if_neg notVoid, List.forall_mem_cons] at areChecked
        rw [if_neg notVoid] at free
        obtain ⟨path, member, isFree⟩ := free
        rcases List.mem_cons.mp member with rfl | further
        · exact exists_new_of_free_first isTop isFree leaves
        · -- With a directory missing further up, the nearest one cannot be made first.
          have noEntry := splitLast_of_free_above areSegments.2 areChecked.1 further isFree
          have fails : makeDirectory (pathUpTo above) top = .error .noEntry top := by
            rw [makeDirectory_eq, noEntry]
          rcases leaves_makeFirst_cons leaves with makes | ⟨fault, failsToo, notNoEntry, -⟩ |
            ⟨-, between, deeper, last⟩
          · rw [fails] at makes
            cases makes
          · rw [fails] at failsToo
            cases failsToo
            contradiction
          · obtain ⟨address, missing, isThere⟩ :=
              ih areSegments.2 areChecked.2 deeper ⟨path, further, isFree⟩
            refine ⟨address, missing, ?_⟩
            have isTopBetween := (grows_of_leaves_makeFirst isTop deeper).1
            rcases last with rfl | makes
            · exact isThere
            · exact (grows_of_makeDirectory isTopBetween makes).2 address isThere

/-! ## Directories that are there -/

/-- A directory that is there is not made again. -/
theorem makeDirectories_of_leads (leads : nodeAt top path = .ok (address, node))
    (isDirectory : node.isDirectory = true) : makeDirectories path top = .ok () top := by
  have leadsTo : leadsToDirectory top path = true := by
    rw [leadsToDirectory, leads]
    exact isDirectory
  rw [makeDirectories, makeFirst_of_error (makeDirectory_of_leads leads) (by simp),
    if_pos leadsTo]

/-- A path up to some segments leads to the directory that they pass to. -/
theorem nodeAt_pathUpTo (areSegments : ∀ segment ∈ above, IsSegment segment)
    (isChecked : checked (pathUpTo above) = .ok (pathUpTo above))
    (isTop : contentAt? top [] = some .directory)
    (passes : Passes top linkLimit [] ("" :: above.reverse) remaining there) :
    ∃ entries, nodeAt top (pathUpTo above) = .ok (there, .directory entries) := by
  obtain ⟨entries, found⟩ := contentAt?_eq_directory_iff.mp (passes.isDirectory isTop isTop)
  -- The path leaves out the slashes and dots behind its last name, which lead nowhere else.
  have behind : "" :: above.reverse =
      "" :: (above.dropWhile isVoid).reverse ++ (above.takeWhile isVoid).reverse := by
    rw [List.cons_append, ← List.reverse_append, List.takeWhile_append_dropWhile]
  have passesFront := passes.of_append_voids behind fun other member =>
    List.mem_takeWhile_imp (List.mem_reverse.mp member)
  have ends : follow top .use linkLimit [] (segments (pathUpTo above)) = .ok (.taken there) := by
    rcases segments_pathUpTo areSegments with ⟨isTop, nothing⟩ | parts
    · rw [nothing] at passesFront
      have onlySlashes := passesFront.follow_use [""]
      rw [follow_void (by decide), follow_nil] at onlySlashes
      rw [isTop]
      exact onlySlashes
    · rw [parts, ← List.append_nil ("" :: _), passesFront.follow_use, follow_nil]
  obtain ⟨-, noNul, short⟩ := checked_eq_ok_iff.mp isChecked
  exact ⟨entries, nodeAt_eq_ok_iff_spot.mpr ⟨spot_eq_ok_iff.mpr ⟨noNul, short, ends⟩, found⟩⟩

/-- The directory that the end of a path is in is there if the path leads to something. -/
theorem exists_nodeAt_parent (absolute : isAbsolute path = true)
    (isTop : contentAt? top [] = some .directory)
    (leads : nodeAt top path = .ok (address, node)) {nearest : String}
    (isParent : parent? path = some nearest) :
    ∃ there entries, nodeAt top nearest = .ok (there, .directory entries) := by
  obtain ⟨noNul, short, ends⟩ := spot_eq_ok_iff.mp (nodeAt_eq_ok_iff_spot.mp leads).1
  obtain ⟨voids, segment, above, isRow, notVoid, rfl, -⟩ := exists_of_parent? isParent
  have areSegments : ∀ other ∈ above, IsSegment other := by
    intro other member
    have isIn : other ∈ (segments path).tail.reverse := by
      rw [isRow]
      exact List.mem_append_right _ (List.mem_cons_of_mem _ member)
    exact isSegment_of_mem_tail isIn
  have isChecked : checked (pathUpTo above) = .ok (pathUpTo above) := by
    obtain ⟨tail, isPath⟩ := exists_pathUpTo_segments absolute
    obtain ⟨behind, isWhole⟩ := exists_pathUpTo_append (voids ++ [segment]) above
    rw [List.append_assoc, List.singleton_append, ← isRow] at isWhole
    rw [isWhole, String.append_assoc] at isPath
    rw [isPath] at noNul short
    exact checked_of_append (checked_eq_ok_iff.mpr ⟨rfl, noNul, short⟩)
  have segmentsPath : segments path = "" :: above.reverse ++ segment :: voids.reverse := by
    obtain ⟨rest, rfl⟩ := isAbsolute_iff.mp absolute
    rw [segments_slash, List.tail_cons] at isRow
    rw [segments_slash, List.reverse_eq_iff.mp isRow]
    simp
  rw [segmentsPath] at ends
  obtain ⟨remaining, there, passes⟩ := exists_passes ends fun void => by
    have empty := (List.all_eq_true.mp void) segment List.mem_cons_self
    rw [beq_iff_eq.mp empty] at notVoid
    cases notVoid
  exact ⟨there, nodeAt_pathUpTo areSegments isChecked isTop passes⟩

/-- The directory that the end of a path is in is not made again. -/
theorem makeParent_of_leads (absolute : isAbsolute path = true)
    (isTop : contentAt? top [] = some .directory)
    (leads : nodeAt top path = .ok (address, node)) : makeParent path top = .ok () top := by
  cases isParent : parent? path with
  | none => rw [makeParent, isParent]; rfl
  | some nearest =>
      obtain ⟨there, entries, leadsNearest⟩ := exists_nodeAt_parent absolute isTop leads isParent
      rw [makeParent, isParent]
      dsimp only
      rw [run, makeDirectories_of_leads leadsNearest rfl]

end ScriptView.Disk
