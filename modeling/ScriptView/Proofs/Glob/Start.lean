import ScriptView.Proofs.Glob.Literal

/-!
# Where a search may start

The literal part of a pattern ends at the last slash in front of the first special
character. It is cut off before groups are expanded and before stars are tried, and still
nothing is lost by it: an alternative of a group starts with what stands in front of the
group, and a star gives away no character that stands in front of the star. So everything
that a pattern without backslashes matches is below the directory that the literal part
names.
-/

namespace ScriptView.Glob

/-! ## The last slash -/

section Slash

variable {text : List Char}

theorem parentPart_of_not_mem (free : '/' ∉ text) : parentPart text = [] := by
  have freeToo : '/' ∉ text.reverse := fun member => free (List.mem_reverse.mp member)
  rw [parentPart, List.dropWhile_eq_nil_iff.mpr (Text.forall_bne_of_not_mem freeToo)]

theorem parentPart_eq_nil_iff : parentPart text = [] ↔ '/' ∉ text := by
  constructor
  · intro nothing member
    obtain ⟨front, behind, rfl, free⟩ := Text.exists_last_of_mem member
    rw [parentPart_append free] at nothing
    split at nothing
    · contradiction
    · contradiction
  · exact parentPart_of_not_mem

/-- What stands before the last slash is the slash itself, or it is followed by it. -/
theorem parentPart_prefix (member : '/' ∈ text) :
    parentPart text = ['/'] ∧ ['/'] <+: text ∨ parentPart text ++ ['/'] <+: text := by
  obtain ⟨front, behind, rfl, free⟩ := Text.exists_last_of_mem member
  rw [parentPart_append free]
  cases front with
  | nil => exact .inl ⟨rfl, List.prefix_append ['/'] behind⟩
  | cons c others =>
      right
      rw [if_neg (List.cons_ne_nil c others)]
      exact (List.prefix_append_right_inj (c :: others)).mpr (List.prefix_append ['/'] behind)

end Slash

/-! ## Matches -/

variable {pattern path : String}

/-- A path that is accepted starts with what stands in front of the first special
character of the pattern. -/
theorem takeWhile_prefix_of_accepts (noBackslash : '\\' ∉ pattern.toList)
    (accepted : accepts pattern path = true) :
    (pattern.toList.takeWhile fun c => !isSpecial c) <+: path.toList := by
  let front := pattern.toList.takeWhile fun c => !isSpecial c
  let rest := pattern.toList.dropWhile fun c => !isSpecial c
  have split : pattern = String.ofList front ++ String.ofList rest := by
    apply String.toList_injective
    rw [String.toList_append, String.toList_ofList, String.toList_ofList]
    exact List.takeWhile_append_dropWhile.symm
  have literal : IsLiteral (String.ofList front).toList := by
    rw [String.toList_ofList]
    exact IsLiteral.takeWhile noBackslash
  rw [split] at accepted
  obtain ⟨tail, rfl⟩ := exists_tail_of_accepts literal accepted
  rw [String.toList_append, String.toList_ofList]
  exact List.prefix_append front tail.toList

/-- Everything that a pattern matches is below the directory that its literal part names:
the path starts with this part and a slash, or with the slash that the part is. Only if no
slash stands in front of the first special character, the literal part is empty and names
no directory. -/
theorem below_literalDirectory (noBackslash : '\\' ∉ pattern.toList)
    (accepted : accepts pattern path = true) :
    (literalDirectory pattern = "" ∨
        literalDirectory pattern = "/" ∧ "/".toList <+: path.toList ∨
        (literalDirectory pattern ++ "/").toList <+: path.toList) ∧
      (literalDirectory pattern = "" ↔ '/' ∉ pattern.toList.takeWhile fun c => !isSpecial c) := by
  have starts := takeWhile_prefix_of_accepts noBackslash accepted
  have slash : "/".toList = ['/'] := rfl
  have emptyIff : literalDirectory pattern = "" ↔
      '/' ∉ pattern.toList.takeWhile fun c => !isSpecial c := by
    rw [← parentPart_eq_nil_iff, literalDirectory]
    exact String.ofList_eq_empty_iff
  refine ⟨?_, emptyIff⟩
  by_cases member : '/' ∈ pattern.toList.takeWhile fun c => !isSpecial c
  · right
    rw [String.toList_append, slash, literalDirectory, String.toList_ofList]
    cases parentPart_prefix member with
    | inl isRoot => exact .inl ⟨congrArg String.ofList isRoot.1, isRoot.2.trans starts⟩
    | inr named => exact .inr (named.trans starts)
  · exact .inl (emptyIff.mpr member)

/-- A globstar that is left out behind a group whose alternatives hold slashes. -/
theorem below_literalDirectory_mixed :
    '\\' ∉ "/s/a{b/c,d}/**/?.ts".toList ∧ accepts "/s/a{b/c,d}/**/?.ts" "/s/ab/c/x.ts" = true ∧
      literalDirectory "/s/a{b/c,d}/**/?.ts" = "/s" ∧
      "/s/".toList <+: "/s/ab/c/x.ts".toList := by
  have noBackslash : '\\' ∉ "/s/a{b/c,d}/**/?.ts".toList := by decide
  have accepted : accepts "/s/a{b/c,d}/**/?.ts" "/s/ab/c/x.ts" = true := by decide +kernel
  have isDirectory : literalDirectory "/s/a{b/c,d}/**/?.ts" = "/s" := by decide +kernel
  have below := (below_literalDirectory noBackslash accepted).1
  rw [isDirectory] at below
  refine ⟨noBackslash, accepted, isDirectory, ?_⟩
  cases below with
  | inl nothing => contradiction
  | inr named =>
      cases named with
      | inl isRoot => exact absurd isRoot.1 (by decide)
      | inr starts => exact starts

end ScriptView.Glob
