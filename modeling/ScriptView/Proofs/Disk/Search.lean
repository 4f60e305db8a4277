import Mathlib.Data.String.Basic
import ScriptView.Disk.Host
import ScriptView.Proofs.Disk.Walk
import ScriptView.Proofs.Glob.Literal

/-!
# What a search of a disk finds

A search walks only through the literal part of a pattern, and asks for a single file if
the pattern has no special character. In a tree without links this finds what matching
the paths of all files would find, except that a file whose path is too long cannot be
asked for.
-/

namespace ScriptView.Disk

open Glob (stepLimit)

variable {top : Node} {current path pattern : String} {patterns : List String}

/-- There is a file at the address that a path is the path of. -/
def IsFilePath (top : Node) (path : String) : Prop :=
  ∃ address bytes, top.get? address = some (.file bytes) ∧ Address.text address = path

theorem isFilePath_iff (plain : top.IsPlain) :
    IsFilePath top path ↔ ∃ place, HasFile top place ∧ place.text = path := by
  constructor
  · intro isFilePath
    obtain ⟨address, bytes, isThere, rfl⟩ := isFilePath
    obtain ⟨place, rfl⟩ := Location.exists_address fun name member =>
      ((plain.get? isThere).2 name member).1
    exact ⟨place, ⟨bytes, isThere⟩, (Location.text_address place).symm⟩
  · intro isFile
    obtain ⟨place, ⟨bytes, isThere⟩, rfl⟩ := isFile
    exact ⟨place.address, bytes, isThere, Location.text_address place⟩

/-! ## Patterns -/

/-- A pattern that is canonical as a path, behind the exclamation mark if it has one. -/
def IsAbsolutePattern (pattern : String) : Prop :=
  IsCanonical ((Glob.Selection.excluded? pattern).getD pattern)

instance (pattern : String) : Decidable (IsAbsolutePattern pattern) :=
  inferInstanceAs (Decidable (IsCanonical _))

theorem withSlashes_of_not_mem (noBackslash : '\\' ∉ path.toList) : withSlashes path = path := by
  have same : path.toList.map (fun c => if c = '\\' then '/' else c) = path.toList.map id := by
    apply List.map_congr_left
    intro c member
    apply if_neg
    intro isBackslash
    rw [isBackslash] at member
    exact noBackslash member
  rw [withSlashes, same, List.map_id, String.ofList_toList]

theorem absolutePattern_of_isCanonical (canonical : IsCanonical pattern) (current : String) :
    absolutePattern current pattern = pattern := by
  have absolute : isAbsolute pattern = true := beq_iff_eq.mpr canonical.absolute
  rw [absolutePattern, withSlashes_of_not_mem canonical.noBackslash, absolute, if_pos rfl]

/-- Canonical patterns are taken as they are. -/
theorem map_absolutePattern {selection : Glob.Selection}
    (included : ∀ pattern ∈ selection.included, IsCanonical pattern)
    (excluded : ∀ pattern ∈ selection.excluded, IsCanonical pattern) (current : String) :
    selection.map (absolutePattern current) = selection := by
  have same : ∀ row : List String, (∀ pattern ∈ row, IsCanonical pattern) →
      row.map (absolutePattern current) = row := by
    intro row canonical
    have unchanged := List.map_congr_left fun pattern member =>
      absolutePattern_of_isCanonical (canonical pattern member) current
    rw [unchanged, List.map_id']
  rw [Glob.Selection.map, same _ included, same _ excluded]

theorem mem_included_iff :
    pattern ∈ (Glob.Selection.ofPatterns patterns).included ↔
      pattern ∈ patterns ∧ Glob.Selection.excluded? pattern = none := by
  rw [Glob.Selection.ofPatterns, List.mem_filter, Option.isNone_iff_eq_none]

theorem isCanonical_of_mem_included
    (absolute : ∀ pattern ∈ patterns, IsAbsolutePattern pattern)
    (member : pattern ∈ (Glob.Selection.ofPatterns patterns).included) : IsCanonical pattern := by
  obtain ⟨isPattern, letsIn⟩ := mem_included_iff.mp member
  have isCanonical := absolute pattern isPattern
  rwa [IsAbsolutePattern, letsIn] at isCanonical

theorem isCanonical_of_mem_excluded
    (absolute : ∀ pattern ∈ patterns, IsAbsolutePattern pattern)
    (member : pattern ∈ (Glob.Selection.ofPatterns patterns).excluded) : IsCanonical pattern := by
  obtain ⟨written, isPattern, takesOut⟩ := List.mem_filterMap.mp member
  have isCanonical := absolute written isPattern
  rwa [IsAbsolutePattern, takesOut] at isCanonical

/-- A canonical path as a pattern lets in. -/
theorem isAbsolutePattern_of_isCanonical (canonical : IsCanonical pattern) :
    IsAbsolutePattern pattern := by
  obtain ⟨rest, chars⟩ := List.head?_eq_some_iff.mp canonical.absolute
  have letsIn : Glob.Selection.excluded? pattern = none := by
    rw [Glob.Selection.excluded?, chars]
    rfl
  rwa [IsAbsolutePattern, letsIn]

/-! ## Candidates -/

/-- Every character takes at least one byte. -/
theorem length_le_utf8ByteSize (text : String) : text.length ≤ text.utf8ByteSize := by
  have bytes : ∀ chars : List Char, chars.length ≤ String.utf8Len chars := by
    intro chars
    induction chars with
    | nil => exact Nat.le_refl 0
    | cons c rest ih =>
        have positive := Char.utf8Size_pos c
        rw [List.length_cons, String.utf8Len_cons]
        omega
  have isLength := bytes text.toList
  rwa [← String.utf8ByteSize_ofList, String.ofList_toList, String.length_toList] at isLength

theorem mem_candidates_of_special {place : Location} (plain : top.IsPlain)
    (isDirectory : top.isDirectory = true) (readable : IsReadable top)
    (special : Glob.hasSpecial place.text = true) :
    path ∈ candidates top current place.text ↔
      IsFilePath top path ∧ Glob.accepts place.text path = true := by
  obtain ⟨front, rest, isPlace, nonempty, literal, start⟩ := Glob.exists_literalDirectory special
  have notEmpty : front.text ≠ "" := by
    intro same
    have starts := (Location.isCanonical_text front).absolute
    rw [same] at starts
    cases starts
  rw [candidates, if_pos special, start]
  dsimp only
  rw [if_neg notEmpty, List.mem_filter, mem_filesBelow plain readable, isFilePath_iff plain]
  constructor
  · intro found
    obtain ⟨⟨file, -, isFile, rfl⟩, accepted⟩ := found
    rw [withSlashes_of_not_mem (Location.isCanonical_text file).noBackslash] at accepted
    exact ⟨⟨file, isFile, rfl⟩, accepted⟩
  · intro matching
    obtain ⟨⟨file, isFile, rfl⟩, accepted⟩ := matching
    have written := Location.text_append front nonempty
    have notRoot : file ≠ .root := by
      intro isRoot
      obtain ⟨bytes, isTop⟩ := isFile
      rw [isRoot] at isTop
      cases isTop
      cases isDirectory
    have below : file.isBelow front = true := by
      rw [isPlace, written] at accepted
      obtain ⟨tail, starts⟩ := Glob.exists_tail_of_accepts (Glob.isLiteral_belowText literal) accepted
      exact Location.isBelow_of_text_eq starts notRoot
    rw [withSlashes_of_not_mem (Location.isCanonical_text file).noBackslash]
    exact ⟨⟨file, below, isFile, rfl⟩, accepted⟩

theorem mem_candidates_of_literal {place : Location} (plain : top.IsPlain)
    (literal : Glob.hasSpecial place.text = false) :
    path ∈ candidates top current place.text ↔
      IsFilePath top path ∧ place.text.utf8ByteSize < pathLimit ∧
        Glob.accepts place.text path = true := by
  have accepts : place.text.utf8ByteSize < pathLimit →
      (Glob.accepts place.text path = true ↔ path = place.text) := by
    intro short
    apply Glob.accepts_iff_eq (Glob.isLiteral_text literal)
    calc place.text.length
      _ ≤ place.text.utf8ByteSize := length_le_utf8ByteSize _
      _ < pathLimit := short
      _ < stepLimit := by decide
  have leads := @leadsToFile_iff top place plain
  rw [candidates, if_neg (by simp [literal]), isFilePath_iff plain]
  by_cases found : leadsToFile top place.text = true
  · obtain ⟨isFile, short⟩ := leads.mp found
    rw [if_pos found, List.mem_singleton, accepts short]
    constructor
    · intro isPath
      exact ⟨⟨place, isFile, isPath.symm⟩, short, isPath⟩
    · intro matching
      exact matching.2.2
  · rw [if_neg found]
    constructor
    · intro nothing
      cases nothing
    · intro matching
      obtain ⟨⟨file, isFile, isPath⟩, short, accepted⟩ := matching
      rw [accepts short, ← isPath] at accepted
      rw [Location.text_injective accepted] at isFile
      exact absurd (leads.mpr ⟨isFile, short⟩) found

/-- What a pattern lets in are the files whose paths it accepts, but for one that has to be
asked for by too long a path. -/
theorem mem_candidates (plain : top.IsPlain) (isDirectory : top.isDirectory = true)
    (readable : IsReadable top) (canonical : IsCanonical pattern) (current : String) :
    path ∈ candidates top current pattern ↔
      IsFilePath top path ∧
        (Glob.hasSpecial pattern = true ∨ pattern.utf8ByteSize < pathLimit) ∧
          Glob.accepts pattern path = true := by
  obtain ⟨place, rfl⟩ := Location.exists_text_of_isCanonical canonical
  cases special : Glob.hasSpecial place.text with
  | true => simp [mem_candidates_of_special plain isDirectory readable special]
  | false => simp [mem_candidates_of_literal plain special]

/-! ## Searching -/

theorem pairwise_toList_ofList (paths : List String) :
    (Std.TreeSet.ofList paths).toList.Pairwise (· < ·) := by
  apply Std.TreeSet.ordered_toList.imp
  intro first second before
  exact compareOfLessAndEq_eq_lt.mp before

theorem mem_toList_ofList {paths : List String} :
    path ∈ (Std.TreeSet.ofList paths).toList ↔ path ∈ paths := by
  rw [Std.TreeSet.mem_toList, Std.TreeSet.mem_ofList, List.contains_iff_mem]

/-- What is found are the candidates of all patterns that let in, without what is taken
out. -/
theorem mem_glob_iff
    (absolute : ∀ pattern ∈ patterns, IsAbsolutePattern pattern) :
    path ∈ (host current).glob patterns top ↔
      (∃ pattern ∈ (Glob.Selection.ofPatterns patterns).included,
        path ∈ candidates top current pattern) ∧
      (Glob.Selection.ofPatterns patterns).excludes (withSlashes path) = false := by
  have included := fun pattern => @isCanonical_of_mem_included pattern patterns absolute
  have excluded := fun pattern => @isCanonical_of_mem_excluded pattern patterns absolute
  change path ∈ glob top current patterns ↔ _
  rw [glob, map_absolutePattern included excluded, mem_toList_ofList, List.mem_filter,
    List.mem_flatMap, Bool.not_eq_true']

theorem excludes_eq_false_iff {selection : Glob.Selection} :
    selection.excludes path = false ↔
      ∀ pattern ∈ selection.excluded, Glob.accepts pattern path = false := by
  rw [Glob.Selection.excludes, List.any_eq_false]
  simp only [Bool.not_eq_true]

/-- In a tree without links a search finds, each once and in order, the files whose paths
are let in by a pattern and taken out by none. A pattern without special characters lets a
file in only if its path is not too long to be asked for. -/
theorem glob_finds_matching (plain : top.IsPlain) (isDirectory : top.isDirectory = true)
    (readable : IsReadable top)
    (absolute : ∀ pattern ∈ patterns, IsAbsolutePattern pattern) :
    ((host current).glob patterns top).Pairwise (· < ·) ∧
      ∀ path, path ∈ (host current).glob patterns top ↔
        IsFilePath top path ∧
          (∃ pattern ∈ (Glob.Selection.ofPatterns patterns).included,
            (Glob.hasSpecial pattern = true ∨ pattern.utf8ByteSize < pathLimit) ∧
              Glob.accepts pattern path = true) ∧
          ∀ pattern ∈ (Glob.Selection.ofPatterns patterns).excluded,
            Glob.accepts pattern path = false := by
  have included := fun pattern => @isCanonical_of_mem_included pattern patterns absolute
  have slashes : ∀ {path}, IsFilePath top path → withSlashes path = path := by
    intro path isFile
    obtain ⟨place, -, rfl⟩ := (isFilePath_iff plain).mp isFile
    exact withSlashes_of_not_mem (Location.isCanonical_text place).noBackslash
  refine ⟨pairwise_toList_ofList _, fun path => ?_⟩
  rw [mem_glob_iff absolute]
  constructor
  · intro found
    obtain ⟨⟨pattern, isIncluded, isCandidate⟩, notExcluded⟩ := found
    obtain ⟨isFile, asked, accepted⟩ :=
      (mem_candidates plain isDirectory readable (included pattern isIncluded) current).mp
        isCandidate
    rw [slashes isFile, excludes_eq_false_iff] at notExcluded
    exact ⟨isFile, ⟨pattern, isIncluded, asked, accepted⟩, notExcluded⟩
  · intro matching
    obtain ⟨isFile, ⟨pattern, isIncluded, asked, accepted⟩, notExcluded⟩ := matching
    have isCandidate :=
      (mem_candidates plain isDirectory readable (included pattern isIncluded) current).mpr
        ⟨isFile, asked, accepted⟩
    rw [slashes isFile, excludes_eq_false_iff]
    exact ⟨⟨pattern, isIncluded, isCandidate⟩, notExcluded⟩

/-- Patterns of both kinds and one that takes out, with a file that is let in twice and one
that is taken out again. -/
theorem glob_finds_matching_mixed :
    ∃ top : Node, top.IsPlain ∧ top.isDirectory = true ∧ IsReadable top ∧
      (∀ pattern ∈ ["/a/*.{ts,vue}", "/y.ts", "/**/*.ts", "!/a/b*"],
        IsAbsolutePattern pattern) ∧
      (host "/").glob ["/a/*.{ts,vue}", "/y.ts", "/**/*.ts", "!/a/b*"] top =
        ["/a/x.ts", "/y.ts"] ∧
      ∀ path, path ∈ ["/a/x.ts", "/y.ts"] ↔
        IsFilePath top path ∧
          (∃ pattern ∈ ["/a/*.{ts,vue}", "/y.ts", "/**/*.ts"],
            (Glob.hasSpecial pattern = true ∨ pattern.utf8ByteSize < pathLimit) ∧
              Glob.accepts pattern path = true) ∧
          ∀ pattern ∈ ["/a/b*"], Glob.accepts pattern path = false := by
  have start : ∃ top : Node, top.IsPlain ∧ top.isDirectory = true ∧ top.IsLow 16 ∧
      (host "/").glob ["/a/*.{ts,vue}", "/y.ts", "/**/*.ts", "!/a/b*"] top =
        ["/a/x.ts", "/y.ts"] := by
    refine ⟨.directory [("a", .directory [("b.vue", .file .empty), ("x.ts", .file .empty)]),
      ("y.ts", .file .empty)], ?_, rfl, ?_, by decide +kernel⟩
    · have inner : (Node.directory [("b.vue", .file .empty), ("x.ts", .file .empty)]).IsPlain :=
        .directory (by decide +kernel) (by decide +kernel) (by simp [Node.IsPlain.file])
      refine .directory (by decide +kernel) (by decide +kernel) ?_
      simp [inner, Node.IsPlain.file]
    · have inner : (Node.directory [("b.vue", .file .empty), ("x.ts", .file .empty)]).IsLow 15 :=
        .directory (by simp [Node.IsLow.file])
      refine .directory ?_
      simp [inner, Node.IsLow.file]
  obtain ⟨top, plain, isDirectory, low, found⟩ := start
  have readable := isReadable_of_isLow plain low
  have absolute : ∀ pattern ∈ ["/a/*.{ts,vue}", "/y.ts", "/**/*.ts", "!/a/b*"],
      IsAbsolutePattern pattern := by
    decide +kernel
  have selection : Glob.Selection.ofPatterns ["/a/*.{ts,vue}", "/y.ts", "/**/*.ts", "!/a/b*"] =
      ⟨["/a/*.{ts,vue}", "/y.ts", "/**/*.ts"], ["/a/b*"]⟩ := by
    decide +kernel
  obtain ⟨-, finds⟩ := @glob_finds_matching top "/" _ plain isDirectory readable absolute
  rw [found, selection] at finds
  exact ⟨top, plain, isDirectory, readable, absolute, found, finds⟩

/-! ## A file that cannot be asked for -/

theorem utf8Len_replicate (count : Nat) : String.utf8Len (List.replicate count 'd') = count := by
  induction count with
  | zero => rfl
  | succ count ih =>
      rw [List.replicate_succ, String.utf8Len_cons, ih]
      rfl

/-- A name as long as a name may be. -/
def longName : Name where
  text := String.ofList (List.replicate nameLimit 'd')
  isName := by
    have differs : ∀ text : String, text.length ≠ nameLimit →
        String.ofList (List.replicate nameLimit 'd') ≠ text := by
      intro text otherLength same
      rw [← same, String.length_ofList, List.length_replicate] at otherLength
      exact otherLength rfl
    refine ⟨differs "" (by decide), differs "." (by decide), differs ".." (by decide), ?_⟩
    intro c member
    rw [String.toList_ofList] at member
    rw [List.eq_of_mem_replicate member]
    rfl

theorem utf8ByteSize_longName : longName.text.utf8ByteSize = nameLimit := by
  rw [longName, String.utf8ByteSize_ofList, utf8Len_replicate]

theorem eq_of_mem_longName {c : Char} (member : c ∈ longName.text.toList) : c = 'd' := by
  rw [longName, String.toList_ofList] at member
  exact List.eq_of_mem_replicate member

theorem isEntryName_longName : IsEntryName longName.text := by
  refine ⟨longName.isName, ?_, Nat.le_of_eq utf8ByteSize_longName⟩
  rw [hasNul, List.contains_eq_mem, decide_eq_false_iff_not]
  intro member
  exact absurd (eq_of_mem_longName member) (by decide)

/-- A file below so many directories, each with nothing else in it. All have the longest
name that there is. -/
def tower : Nat → Node
  | 0 => .file .empty
  | depth + 1 => .directory [(longName.text, tower depth)]

/-- The place of the file. -/
def towerFile (depth : Nat) : Location :=
  List.replicate depth longName

theorem isPlain_tower (depth : Nat) : (tower depth).IsPlain := by
  induction depth with
  | zero => exact .file _
  | succ depth ih =>
      exact .directory (by simpa using isEntryName_longName) (by simp) (by simpa using ih)

theorem isLow_tower (depth : Nat) : (tower depth).IsLow depth := by
  induction depth with
  | zero => exact .file _ _
  | succ depth ih => exact .directory (by simpa using ih)

theorem get?_tower (depth : Nat) :
    (tower depth).get? (towerFile depth).address = some (.file .empty) := by
  induction depth with
  | zero => rfl
  | succ depth ih =>
      rw [tower, towerFile, List.replicate_succ, Location.address_cons, Node.get?_cons, Node.child?,
        Node.lookup_entry_cons, if_pos rfl]
      exact ih

theorem utf8ByteSize_towerFile {depth : Nat} (positive : 0 < depth) :
    (towerFile depth).text.utf8ByteSize = depth * (nameLimit + 1) := by
  have notRoot : towerFile depth ≠ .root := by
    intro isRoot
    exact absurd (List.replicate_eq_nil_iff _ |>.mp isRoot) (Nat.ne_of_gt positive)
  rw [Location.utf8ByteSize_text notRoot, towerFile, List.map_replicate, List.sum_replicate,
    utf8ByteSize_longName]
  rfl

theorem hasSpecial_towerFile (depth : Nat) : Glob.hasSpecial (towerFile depth).text = false := by
  apply Bool.eq_false_iff.mpr
  intro special
  obtain ⟨name, member, isSpecialName⟩ := Glob.hasSpecial_text_iff.mp special
  obtain ⟨c, inside, isSpecialChar⟩ := List.any_eq_true.mp isSpecialName
  rw [List.eq_of_mem_replicate member] at inside
  rw [eq_of_mem_longName inside] at isSpecialChar
  exact absurd isSpecialChar (by decide)

/-- A file whose path has as many bytes as no path may have is accepted by that path as a
pattern, and not found by it. -/
theorem glob_misses_long :
    (tower 16).IsPlain ∧ (tower 16).isDirectory = true ∧ IsReadable (tower 16) ∧
      IsAbsolutePattern (towerFile 16).text ∧ (towerFile 16).text.length < 100000 ∧
      IsFilePath (tower 16) (towerFile 16).text ∧
      Glob.accepts (towerFile 16).text (towerFile 16).text = true ∧
      (host "/").glob [(towerFile 16).text] (tower 16) = [] := by
  have plain := isPlain_tower 16
  have bytes : (towerFile 16).text.utf8ByteSize = pathLimit := utf8ByteSize_towerFile (by decide)
  have short : (towerFile 16).text.length < 100000 := by
    calc (towerFile 16).text.length
      _ ≤ pathLimit := bytes ▸ length_le_utf8ByteSize _
      _ < 100000 := by decide
  have plainText := hasSpecial_towerFile 16
  have isFile : IsFilePath (tower 16) (towerFile 16).text :=
    ⟨_, _, get?_tower 16, Location.text_address _⟩
  have accepted := (Glob.accepts_iff_eq (Glob.isLiteral_text plainText) short).mpr rfl
  have absolute := isAbsolutePattern_of_isCanonical (Location.isCanonical_text (towerFile 16))
  refine ⟨plain, rfl, isReadable_of_isLow plain (isLow_tower 16), absolute, short, isFile,
    accepted, ?_⟩
  apply List.eq_nil_iff_forall_not_mem.mpr
  intro path found
  rw [mem_glob_iff (by simpa using absolute)] at found
  obtain ⟨⟨pattern, isIncluded, isCandidate⟩, -⟩ := found
  have isPattern := List.mem_singleton.mp (mem_included_iff.mp isIncluded).1
  rw [isPattern, mem_candidates_of_literal plain plainText, bytes] at isCandidate
  exact absurd isCandidate.2.1 (Nat.lt_irrefl pathLimit)

end ScriptView.Disk
