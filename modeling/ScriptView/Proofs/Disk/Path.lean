import ScriptView.Proofs.Disk.Lookup

/-!
# Segments of paths

Joining a name to a path adds one segment. The paths above a path have its segments up to
one that is not void, and each of them is the beginning of the one before.
-/

namespace ScriptView.Disk

variable {directory name path segment : String} {front above below : List String}

/-- A text that is a single segment. -/
def IsSegment (text : String) : Prop :=
  '/' ∉ text.toList

theorem segments_eq_splitOn (path : String) :
    segments path = (path.toList.splitOn '/').map String.ofList := by
  rw [segments, Location.split_eq_splitOn]

theorem segments_of_isSegment (isSegment : IsSegment name) : segments name = [name] := by
  rw [segments_eq_splitOn, List.splitOn_eq_singleton isSegment, List.map_singleton,
    String.ofList_toList]

theorem segments_append_slash (front rest : String) :
    segments (front ++ "/" ++ rest) = segments front ++ segments rest := by
  have text : (front ++ "/" ++ rest).toList = front.toList ++ '/' :: rest.toList := by simp
  rw [segments_eq_splitOn, segments_eq_splitOn, segments_eq_splitOn, text, ← List.map_append]
  exact congrArg _ (List.splitOnP_append_cons _ _ (beq_self_eq_true '/'))

theorem segments_slash (rest : String) : segments ("/" ++ rest) = "" :: segments rest := by
  have slash := segments_append_slash "" rest
  rw [String.empty_append] at slash
  exact slash

/-- A path with a slash in front consists of its segments with a slash in front of each. -/
theorem slash_toList (path : String) :
    '/' :: path.toList = ((segments path).map String.toList).flatMap ('/' :: ·) := by
  have parts : (segments path).map String.toList = path.toList.splitOn '/' := by
    rw [segments_eq_splitOn, List.map_map]
    exact List.map_id'' (fun _ => String.toList_ofList) _
  rw [parts, ← Location.slash_intercalate (List.splitOn_ne_nil _ _), List.intercalate_splitOn]

theorem not_mem_of_mem_split {text part : List Char} (member : part ∈ segments.split text) :
    '/' ∉ part := by
  induction text generalizing part with
  | nil =>
      rw [segments.split, List.mem_singleton] at member
      simp [member]
  | cons c rest ih =>
      rw [segments.split] at member
      split at member
      · cases List.mem_cons.mp member with
        | inl here => simp [here]
        | inr later => exact ih later
      · next plain =>
        split at member
        · rw [List.mem_singleton] at member
          simpa [member] using Ne.symm plain
        · next first others split =>
          rw [split] at ih
          cases List.mem_cons.mp member with
          | inl here =>
              rw [here, List.mem_cons, not_or]
              exact ⟨Ne.symm plain, ih List.mem_cons_self⟩
          | inr later => exact ih (List.mem_cons_of_mem _ later)

theorem isSegment_of_mem_segments {segment : String} (member : segment ∈ segments path) :
    IsSegment segment := by
  obtain ⟨part, isPart, rfl⟩ := List.mem_map.mp member
  rw [IsSegment, String.toList_ofList]
  exact not_mem_of_mem_split isPart

theorem segments_ofSegments {row : List String} (areSegments : ∀ segment ∈ row, IsSegment segment)
    (nonempty : row ≠ []) : segments (ofSegments row) = row := by
  have parts : ∀ part ∈ row.map String.toList, '/' ∉ part := by
    intro part member
    obtain ⟨segment, isSegment, rfl⟩ := List.mem_map.mp member
    exact areSegments segment isSegment
  have text : (ofSegments row).toList = ['/'].intercalate (row.map String.toList) :=
    String.toList_intercalate
  rw [segments_eq_splitOn, text, List.splitOn_intercalate _ parts (by simpa using nonempty),
    List.map_map]
  exact List.map_id'' (fun _ => String.ofList_toList) row

/-! ## Joining -/

theorem endsWithSlash_iff : endsWithSlash directory = true ↔ ∃ front, directory = front ++ "/" := by
  rw [endsWithSlash, beq_iff_eq, List.getLast?_eq_some_iff]
  constructor
  · intro ends
    obtain ⟨front, text⟩ := ends
    exact ⟨String.ofList front, String.toList_injective (by simp [text])⟩
  · intro ends
    obtain ⟨front, rfl⟩ := ends
    exact ⟨front.toList, by simp⟩

theorem isAbsolute_iff : isAbsolute path = true ↔ ∃ rest, path = "/" ++ rest := by
  rw [isAbsolute, beq_iff_eq, List.head?_eq_some_iff]
  constructor
  · intro starts
    obtain ⟨rest, text⟩ := starts
    exact ⟨String.ofList rest, String.toList_injective (by simp [text])⟩
  · intro starts
    obtain ⟨rest, rfl⟩ := starts
    exact ⟨rest.toList, by simp⟩

theorem isAbsolute_join (absolute : isAbsolute directory = true) (path : String) :
    isAbsolute (join directory path) = true := by
  obtain ⟨rest, rfl⟩ := isAbsolute_iff.mp absolute
  rw [join]
  split
  · assumption
  · split
    · exact isAbsolute_iff.mpr ⟨rest ++ path, String.append_assoc⟩
    · exact isAbsolute_iff.mpr ⟨rest ++ ("/" ++ path), by simp only [String.append_assoc]⟩

theorem isAbsolute_of_isSegment (isSegment : IsSegment name) : isAbsolute name = false := by
  rw [isAbsolute, beq_eq_false_iff_ne]
  intro starts
  exact isSegment (List.mem_of_head? starts)

/-- Joining a name adds a segment, in place of the void one behind a slash at the end. -/
theorem exists_segments_join (directory : String) (isSegment : IsSegment name) :
    ∃ front, (segments directory = front ∨ segments directory = front ++ [""]) ∧
      segments (join directory name) = front ++ [name] := by
  rw [join, isAbsolute_of_isSegment isSegment, if_neg Bool.false_ne_true]
  split
  · next slash =>
    obtain ⟨front, rfl⟩ := endsWithSlash_iff.mp slash
    refine ⟨segments front, .inr ?_, ?_⟩
    · have empty := segments_append_slash front ""
      rw [String.append_empty] at empty
      rw [empty]
      rfl
    · rw [segments_append_slash, segments_of_isSegment isSegment]
  · refine ⟨segments directory, .inl rfl, ?_⟩
    rw [segments_append_slash, segments_of_isSegment isSegment]

theorem utf8ByteSize_lt_join (isSegment : IsSegment name) (nonempty : name ≠ "")
    (directory : String) : directory.utf8ByteSize < (join directory name).utf8ByteSize := by
  have positive : name.utf8ByteSize ≠ 0 := fun zero =>
    nonempty (String.utf8ByteSize_eq_zero_iff.mp zero)
  rw [join, isAbsolute_of_isSegment isSegment, if_neg Bool.false_ne_true]
  split
  · rw [String.utf8ByteSize_append]
    omega
  · rw [String.utf8ByteSize_append, String.utf8ByteSize_append]
    omega

theorem hasNul_append (front rest : String) :
    hasNul (front ++ rest) = (hasNul front || hasNul rest) := by
  simp [hasNul]

theorem hasNul_join (isSegment : IsSegment name) (directory : String) :
    hasNul (join directory name) = (hasNul directory || hasNul name) := by
  have slash : hasNul "/" = false := by decide
  rw [join, isAbsolute_of_isSegment isSegment, if_neg Bool.false_ne_true]
  split
  · rw [hasNul_append]
  · rw [hasNul_append, hasNul_append, slash, Bool.or_false]

theorem noNul_of_mem_segments (noNul : hasNul path = false) (member : segment ∈ segments path) :
    hasNul segment = false := by
  rw [hasNul, List.contains_eq_mem, decide_eq_false_iff_not] at noNul ⊢
  intro isNul
  have inPath : '\x00' ∈ '/' :: path.toList := by
    rw [slash_toList]
    exact List.mem_flatMap.mpr ⟨_, List.mem_map_of_mem member, List.mem_cons_of_mem _ isNul⟩
  exact noNul (List.mem_of_ne_of_mem (by decide) inPath)

/-! ## The paths above a path -/

/-- The path of the last segment that is not void, given the segments in reverse. -/
def pathUpTo (above : List String) : String :=
  "/" ++ ofSegments (above.dropWhile isVoid).reverse

theorem parentsOf_cons (segment : String) (above : List String) :
    parentsOf (segment :: above) =
      if isVoid segment then parentsOf above else pathUpTo above :: parentsOf above := rfl

theorem parentsOf_dropWhile (above : List String) :
    parentsOf (above.dropWhile isVoid) = parentsOf above := by
  induction above with
  | nil => rfl
  | cons segment above ih =>
      rw [List.dropWhile_cons]
      split
      · next void => rw [ih, parentsOf_cons, if_pos void]
      · rfl

/-- Behind each of the paths above a path there is a segment that is not void. -/
theorem mem_parentsOf_iff :
    path ∈ parentsOf above ↔
      ∃ below segment rest, above = below ++ segment :: rest ∧ isVoid segment = false ∧
        pathUpTo rest = path := by
  induction above with
  | nil => simp [parentsOf]
  | cons segment above ih =>
      rw [parentsOf_cons]
      constructor
      · intro member
        by_cases void : isVoid segment = true
        · rw [if_pos void] at member
          obtain ⟨below, other, rest, rfl, notVoid, isPath⟩ := ih.mp member
          exact ⟨segment :: below, other, rest, rfl, notVoid, isPath⟩
        · rw [if_neg void] at member
          cases List.mem_cons.mp member with
          | inl here => exact ⟨[], segment, above, rfl, Bool.eq_false_iff.mpr void, here.symm⟩
          | inr further =>
              obtain ⟨below, other, rest, rfl, notVoid, isPath⟩ := ih.mp further
              exact ⟨segment :: below, other, rest, rfl, notVoid, isPath⟩
      · intro isThere
        obtain ⟨below, other, rest, split, notVoid, isPath⟩ := isThere
        cases below with
        | nil =>
            cases split
            rw [notVoid, if_neg Bool.false_ne_true, isPath]
            exact List.mem_cons_self
        | cons first below =>
            cases split
            have further := ih.mpr ⟨below, other, rest, rfl, notVoid, isPath⟩
            split
            · exact further
            · exact List.mem_cons_of_mem _ further

theorem segments_pathUpTo (areSegments : ∀ segment ∈ above, IsSegment segment) :
    (pathUpTo above = "/" ∧ above.dropWhile isVoid = []) ∨
      segments (pathUpTo above) = "" :: (above.dropWhile isVoid).reverse := by
  by_cases nothing : above.dropWhile isVoid = []
  · exact .inl ⟨by rw [pathUpTo, nothing]; rfl, nothing⟩
  · have nonempty : (above.dropWhile isVoid).reverse ≠ [] := by simpa using nothing
    have parts : ∀ segment ∈ (above.dropWhile isVoid).reverse, IsSegment segment := by
      intro segment member
      have inAbove := (List.dropWhile_sublist _).subset (List.mem_reverse.mp member)
      exact areSegments segment inAbove
    exact .inr ((segments_slash _).trans (congrArg _ (segments_ofSegments parts nonempty)))

theorem toList_pathUpTo (nonempty : above.dropWhile isVoid ≠ []) :
    (pathUpTo above).toList =
      ((above.dropWhile isVoid).reverse.map String.toList).flatMap ('/' :: ·) := by
  rw [← Location.slash_intercalate (by simpa using nonempty), pathUpTo, ofSegments,
    String.toList_append, String.toList_intercalate]
  rfl

theorem exists_pathUpTo_cons (segment : String) (above : List String) :
    ∃ tail, pathUpTo (segment :: above) = pathUpTo above ++ tail := by
  by_cases void : isVoid segment = true
  · exact ⟨"", by rw [pathUpTo, List.dropWhile_cons, if_pos void, String.append_empty, pathUpTo]⟩
  · have kept : (segment :: above).dropWhile isVoid = segment :: above := by
      rw [List.dropWhile_cons, if_neg void]
    by_cases nothing : above.dropWhile isVoid = []
    · exact ⟨ofSegments ((segment :: above).dropWhile isVoid).reverse, by
        rw [pathUpTo, pathUpTo, nothing]; rfl⟩
    · have nonempty : (segment :: above).dropWhile isVoid ≠ [] := by simp [kept]
      have whole := toList_pathUpTo nonempty
      rw [kept, ← List.takeWhile_append_dropWhile (p := isVoid) (l := above),
        List.reverse_cons, List.reverse_append, List.append_assoc, List.map_append,
        List.flatMap_append, ← toList_pathUpTo nothing] at whole
      rw [List.takeWhile_append_dropWhile] at whole
      obtain ⟨rest, isPath⟩ : ∃ rest, (pathUpTo (segment :: above)).toList =
        (pathUpTo above).toList ++ rest := ⟨_, whole⟩
      exact ⟨String.ofList rest, String.toList_injective (by
        rw [String.toList_append, String.toList_ofList, isPath])⟩

/-- A path is the beginning of the paths of the segments behind it. -/
theorem exists_pathUpTo_append (below above : List String) :
    ∃ tail, pathUpTo (below ++ above) = pathUpTo above ++ tail := by
  induction below with
  | nil => exact ⟨"", String.append_empty.symm⟩
  | cons segment below ih =>
      obtain ⟨tail, isPath⟩ := ih
      obtain ⟨last, further⟩ := exists_pathUpTo_cons segment (below ++ above)
      exact ⟨tail ++ last, by rw [List.cons_append, further, isPath, String.append_assoc]⟩

/-- The path of a segment goes on behind the path up to another one. -/
theorem exists_segments_behind (areSegments : ∀ other ∈ below ++ segment :: above, IsSegment other)
    (notVoid : isVoid segment = false) :
    ∃ behind, segment ∈ behind ∧ segments (pathUpTo (below ++ segment :: above)) =
      "" :: (above.dropWhile isVoid).reverse ++ behind := by
  have kept : (below ++ segment :: above).dropWhile isVoid =
      below.dropWhile isVoid ++ segment :: above := by
    rw [List.dropWhile_append]
    split
    · next nothing =>
      rw [List.isEmpty_iff.mp nothing, List.dropWhile_cons_of_neg (by simp [notVoid]), List.nil_append]
    · rfl
  refine ⟨(above.takeWhile isVoid).reverse ++ segment :: (below.dropWhile isVoid).reverse,
    List.mem_append_right _ List.mem_cons_self, ?_⟩
  rcases segments_pathUpTo areSegments with ⟨-, nothing⟩ | parts
  · rw [kept] at nothing
    simp at nothing
  · rw [parts, kept, List.reverse_append, List.reverse_cons]
    have whole := congrArg List.reverse (List.takeWhile_append_dropWhile (p := isVoid) (l := above))
    rw [List.reverse_append] at whole
    simp [← whole]

theorem parents_pathUpTo (areSegments : ∀ segment ∈ above, IsSegment segment) :
    parents (pathUpTo above) = parentsOf above := by
  rw [← parentsOf_dropWhile above, parents]
  rcases segments_pathUpTo areSegments with ⟨isTop, nothing⟩ | parts
  · rw [isTop, nothing]
    rfl
  · rw [parts, List.tail_cons, List.reverse_reverse]

/-- An absolute path goes on with slashes and dots only behind its last segment. -/
theorem exists_pathUpTo_segments (absolute : isAbsolute path = true) :
    ∃ tail, path = pathUpTo (segments path).tail.reverse ++ tail := by
  obtain ⟨rest, rfl⟩ := isAbsolute_iff.mp absolute
  rw [segments_slash, List.tail_cons]
  by_cases nothing : (segments rest).reverse.dropWhile isVoid = []
  · exact ⟨rest, by rw [pathUpTo, nothing]; rfl⟩
  · have whole := slash_toList rest
    have parts := congrArg List.reverse
      (List.takeWhile_append_dropWhile (p := isVoid) (l := (segments rest).reverse))
    rw [List.reverse_append, List.reverse_reverse] at parts
    rw [← parts, List.map_append, List.flatMap_append, ← toList_pathUpTo nothing] at whole
    obtain ⟨behind, isPath⟩ : ∃ behind, '/' :: rest.toList =
      (pathUpTo (segments rest).reverse).toList ++ behind := ⟨_, whole⟩
    refine ⟨String.ofList behind, String.toList_injective ?_⟩
    simp only [String.toList_append, String.toList_ofList]
    exact isPath

theorem exists_of_parentsOf_eq_cons {row further : List String} {nearest : String}
    (isRow : parentsOf row = nearest :: further) :
    ∃ voids segment above, row = voids ++ segment :: above ∧ isVoid segment = false ∧
      pathUpTo above = nearest ∧ parentsOf above = further := by
  induction row with
  | nil => cases isRow
  | cons segment row ih =>
      rw [parentsOf_cons] at isRow
      split at isRow
      · obtain ⟨voids, last, above, rfl, notVoid, isPath, isFurther⟩ := ih isRow
        exact ⟨segment :: voids, last, above, rfl, notVoid, isPath, isFurther⟩
      · next notVoid =>
        obtain ⟨isPath, isFurther⟩ := List.cons.inj isRow
        exact ⟨[], segment, row, rfl, Bool.eq_false_iff.mpr notVoid, isPath, isFurther⟩

theorem isSegment_of_mem_tail {segment : String} (member : segment ∈ (segments path).tail.reverse) :
    IsSegment segment :=
  isSegment_of_mem_segments (List.mem_of_mem_tail (List.mem_reverse.mp member))

/-- The directories above a path are the nearest one and those above it. -/
theorem exists_of_parent? {nearest : String} (isParent : parent? path = some nearest) :
    ∃ voids segment above, (segments path).tail.reverse = voids ++ segment :: above ∧
      isVoid segment = false ∧ pathUpTo above = nearest ∧
      parents path = nearest :: parentsOf above ∧ parents nearest = parentsOf above := by
  rw [parent?] at isParent
  obtain ⟨further, isRow⟩ := List.head?_eq_some_iff.mp isParent
  obtain ⟨voids, segment, above, isSplit, notVoid, isPath, isFurther⟩ :=
    exists_of_parentsOf_eq_cons isRow
  refine ⟨voids, segment, above, isSplit, notVoid, isPath, isFurther ▸ isRow, ?_⟩
  rw [← isPath, parents_pathUpTo]
  intro other member
  have isIn : other ∈ (segments path).tail.reverse := by
    rw [isSplit]
    exact List.mem_append_right _ (List.mem_cons_of_mem _ member)
  exact isSegment_of_mem_tail isIn

end ScriptView.Disk
