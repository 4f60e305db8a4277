import ScriptView.Glob.Search
import ScriptView.Proofs.Glob.Meaning

/-!
# What a search finds

A search finds a match only where there is one, and it misses none unless it has
used up its steps. All that is used of a search is what its outcome tells about
the property searched for, `Outcome.Tells`: a row of searches tells whether one
of its candidates has the property, and a search among atoms is made of such
rows. The steps only grow on the way, so that an outcome within the limit rests
on outcomes within the limit.
-/

namespace ScriptView.Glob

/-- What an outcome tells about a property, when so many steps had been used
before: that it holds if it was found to, and otherwise that it does not, unless
the limit was passed. -/
structure Outcome.Tells (outcome : Outcome) (property : Prop) (used : Nat) : Prop where
  used_le : used ≤ outcome.steps
  holds_of_found : outcome.found = true → property
  not_of_missed : outcome.found = false → outcome.steps ≤ stepLimit → ¬property

namespace Outcome.Tells

variable {outcome : Outcome} {property other : Prop} {used earlier : Nat}

theorem congr (tells : outcome.Tells property used) (same : property ↔ other) :
    outcome.Tells other used := by
  rw [← propext same]
  exact tells

/-- It tells as much if fewer steps had been used. -/
theorem of_le (tells : outcome.Tells property used) (less : earlier ≤ used) :
    outcome.Tells property earlier :=
  ⟨Nat.le_trans less tells.used_le, tells.holds_of_found, tells.not_of_missed⟩

/-- An outcome beyond the limit tells nothing. -/
theorem of_limit_le (spent : stepLimit ≤ used) : Tells ⟨false, used + 1⟩ property used where
  used_le := Nat.le_succ used
  holds_of_found found := nomatch found
  not_of_missed _ within := absurd within (Nat.not_le_of_lt (Nat.lt_succ_of_le spent))

/-- One step that settles the property. -/
theorem of_decided {found : Bool} (decides : found = true ↔ property) :
    Tells ⟨found, used + 1⟩ property used where
  used_le := Nat.le_succ used
  holds_of_found := decides.mp
  not_of_missed missed _ holds := by
    have notFound : found = false := missed
    rw [decides.mpr holds] at notFound
    contradiction

/-- A match that is found has every weaker property, too. -/
theorem of_found (tells : outcome.Tells property used) (found : outcome.found = true)
    (weaker : property → other) : outcome.Tells other used where
  used_le := tells.used_le
  holds_of_found _ := weaker (tells.holds_of_found found)
  not_of_missed missed := by
    rw [found] at missed
    contradiction

/-- Two searches in a row, the second only if the first finds nothing. -/
theorem orElse {first second : Outcome} {left right : Prop} (tellsFirst : first.Tells left used)
    (tellsSecond : second.Tells right first.steps) :
    (if first.found then first else second).Tells (left ∨ right) used := by
  split
  · next found => exact tellsFirst.of_found found .inl
  · next missed =>
    refine ⟨Nat.le_trans tellsFirst.used_le tellsSecond.used_le, ?_, ?_⟩
    · intro found
      exact .inr (tellsSecond.holds_of_found found)
    · intro missedToo within
      rintro (holds | holds)
      · exact tellsFirst.not_of_missed (by simpa using missed)
          (Nat.le_trans tellsSecond.used_le within) holds
      · exact tellsSecond.not_of_missed missedToo within holds

/-- A row of searches tells whether one of the candidates has the property. -/
theorem firstFound {α : Type} {search : α → Nat → Outcome} {property : α → Prop}
    (candidates : List α)
    (tells : ∀ candidate ∈ candidates, ∀ steps,
      (search candidate steps).Tells (property candidate) steps) (used : Nat) :
    (firstFound search candidates used).Tells (∃ candidate ∈ candidates, property candidate)
      used := by
  induction candidates generalizing used with
  | nil =>
      refine ⟨Nat.le_refl used, ?_, ?_⟩
      · intro found
        cases found
      · intro _ _ some
        simp at some
  | cons candidate others ih =>
      have tellsFirst := tells candidate List.mem_cons_self used
      have tellsOthers := ih (fun other member => tells other (List.mem_cons_of_mem _ member))
        (search candidate used).steps
      exact (tellsFirst.orElse tellsOthers).congr (by simp)

end Outcome.Tells

open Outcome (Tells)

/-- A search among atoms tells whether they divide the path. -/
theorem tells_search (atoms : List Atom) (path : List Char) (used : Nat) :
    (search atoms path used).Tells (Divides atoms path) used := by
  fun_induction search atoms path used with
  | case1 atoms path used spent => exact .of_limit_le spent
  | case2 path used _ =>
      apply Tells.of_decided
      rw [List.isEmpty_iff, Divides.nil_iff]
  | case3 path used _ rest ih =>
      have tells := Tells.firstFound (segmentTails path)
        (fun tail _ steps => ih tail steps) (used + 1)
      apply (tells.of_le (Nat.le_succ used)).congr
      simp only [mem_segmentTails, Divides.star_iff]
      constructor
      · rintro ⟨tail, ⟨stretch, noSlash, eq⟩, divides⟩
        exact ⟨stretch, tail, eq, noSlash, divides⟩
      · rintro ⟨stretch, tail, eq, noSlash, divides⟩
        exact ⟨tail, ⟨stretch, noSlash, eq⟩, divides⟩
  | case4 path used _ rest skipped found ih =>
      exact (ih.of_found found .noGlobstar).of_le (Nat.le_succ used)
  | case5 path used _ rest skipped missed ih ihSlash =>
      have tells := Tells.firstFound (tails path)
        (fun tail _ steps => ihSlash tail steps) skipped.steps
      have both := (ih.orElse tells).of_le (Nat.le_succ used)
      rw [if_neg missed] at both
      apply both.congr
      simp [Divides.globstar_iff, mem_tails]
  | case6 path used _ rest notSlash ih =>
      have tells := Tells.firstFound (tails path)
        (fun tail _ steps => ih tail steps) (used + 1)
      apply (tells.of_le (Nat.le_succ used)).congr
      rw [Divides.globstar_iff]
      simp only [mem_tails]
      constructor
      · exact .inr
      · rintro (⟨more, same, _⟩ | divides)
        · exact absurd same (notSlash more)
        · exact divides
  | case7 used _ atom rest notStar _ notGlobstar =>
      apply Tells.of_decided
      rw [Divides.oneChar_iff notStar notGlobstar]
      simp
  | case8 used _ atom rest notStar _ notGlobstar c tail admitted ih =>
      apply (ih.of_le (Nat.le_succ used)).congr
      rw [Divides.oneChar_iff notStar notGlobstar]
      simp [admitted]
  | case9 used _ atom rest notStar _ notGlobstar c tail refused =>
      apply Tells.of_decided
      rw [Divides.oneChar_iff notStar notGlobstar]
      simp [refused]

/-- The outcome for a pattern with groups tells whether one of its alternatives
matches the path. -/
theorem tells_outcome (pattern path : String) :
    (outcome pattern path).Tells
      (∃ alternative ∈ expand pattern.toList, Matches alternative path.toList) 0 := by
  apply Tells.firstFound
  intro alternative _ steps
  exact (tells_search (atoms alternative) path.toList steps).congr matches_iff_divides.symm

/-- A pattern is found to match a path only if one of its alternatives does, and
if it is not found to match, then none does, unless the search was cut short. -/
theorem matches_of_accepts (pattern path : String) :
    (accepts pattern path = true →
      ∃ alternative ∈ expand pattern.toList, Matches alternative path.toList) ∧
    (accepts pattern path = false → (outcome pattern path).steps ≤ stepLimit →
      ∀ alternative ∈ expand pattern.toList, ¬Matches alternative path.toList) := by
  have tells := tells_outcome pattern path
  constructor
  · exact tells.holds_of_found
  · intro refused within alternative member holds
    exact tells.not_of_missed refused within ⟨alternative, member, holds⟩

/-- A file is found with the globstar left out, and it is told that a file
directly in another directory does not match. -/
theorem matches_of_accepts_globstar :
    (∃ alternative ∈ expand "/s/**/[!a-c]?.{ts,vue}".toList, Matches alternative "/s/dd.vue".toList) ∧
    ∀ alternative ∈ expand "/s/**/[!a-c]?.{ts,vue}".toList, ¬Matches alternative "/s/t/bd.ts".toList := by
  constructor
  · exact (matches_of_accepts "/s/**/[!a-c]?.{ts,vue}" "/s/dd.vue").1 (by decide +kernel)
  · exact (matches_of_accepts "/s/**/[!a-c]?.{ts,vue}" "/s/t/bd.ts").2 (by decide +kernel)
      (by decide +kernel)

end ScriptView.Glob
