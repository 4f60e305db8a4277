import ScriptView.Mapping.Basic

/-!
# Paths of components and of their scripts

What the two directions of a mapping do to paths of either sort, and which paths they
make the same. Whether either direction changes a path again that it has changed hangs on
one question, whether a component can have a virtual path (`Mapping.Parted`).
-/

namespace ScriptView

open Text

namespace Text

variable {text left right : String}

theorem endsWith_iff_suffix {ending : String} :
    endsWith text ending = true ↔ ending.toList <:+ text.toList := by
  rw [endsWith, List.isSuffixOf_iff_suffix]

/-- Of two endings of a text, one is an ending of the other. -/
theorem endsWith_or_endsWith (ends : endsWith text left = true)
    (endsToo : endsWith text right = true) :
    endsWith right left = true ∨ endsWith left right = true := by
  rw [endsWith_iff_suffix] at ends endsToo ⊢
  rw [endsWith_iff_suffix]
  exact List.suffix_or_suffix_of_suffix ends endsToo

end Text

namespace Mapping

section Directions

variable {mapping : Mapping} {path : String}

theorem toComponent_of_not_isVirtual (plain : mapping.isVirtual path = false) :
    mapping.toComponent path = path := by
  rw [isVirtual] at plain
  rw [toComponent]
  cases dropped : dropEnding? path mapping.script with
  | none => rfl
  | some front =>
      rw [dropped] at plain
      dsimp only at plain ⊢
      rw [plain, if_neg Bool.false_ne_true]

/-- A virtual path leads to the path of a component. -/
theorem endsWith_toComponent (virtual : mapping.isVirtual path = true) :
    endsWith (mapping.toComponent path) mapping.component = true := by
  rw [isVirtual] at virtual
  rw [toComponent]
  cases dropped : dropEnding? path mapping.script with
  | none =>
      rw [dropped] at virtual
      contradiction
  | some front =>
      rw [dropped] at virtual
      dsimp only at virtual ⊢
      rw [if_pos virtual]
      exact virtual

/-- The path of a component's script is virtual. -/
theorem isVirtual_append_script (ends : endsWith path mapping.component = true) :
    mapping.isVirtual (path ++ mapping.script) = true := by
  rw [isVirtual, dropEnding?_append]
  exact ends

theorem toComponent_append_script (ends : endsWith path mapping.component = true) :
    mapping.toComponent (path ++ mapping.script) = path := by
  rw [toComponent, dropEnding?_append]
  exact if_pos ends

theorem toComponent_append_script_self (virtual : mapping.isVirtual path = true) :
    mapping.toComponent path ++ mapping.script = path := by
  rw [mapping.isVirtual_iff] at virtual
  obtain ⟨front, rfl⟩ := endsWith_iff.mp virtual
  rw [virtualSuffix, ← String.append_assoc, toComponent_append_script (endsWith_append _ _)]

theorem toVirtual_of_endsWith (ends : endsWith path mapping.component = true) :
    mapping.toVirtual path = path ++ mapping.script :=
  if_pos ends

theorem toVirtual_of_not_endsWith (ends : endsWith path mapping.component = false) :
    mapping.toVirtual path = path :=
  if_neg (by simp [ends])

/-- No component of a mapping has a virtual path. -/
def Parted (mapping : Mapping) : Prop :=
  ∀ path, endsWith path mapping.component = true → mapping.isVirtual path = false

/-- If a component has a virtual path, the shortest virtual path is one of a component. -/
theorem parted_iff :
    mapping.Parted ↔ endsWith mapping.virtualSuffix mapping.component = false := by
  constructor
  · intro parted
    apply Bool.eq_false_iff.mpr
    intro ends
    have virtual : mapping.isVirtual mapping.virtualSuffix = true :=
      isVirtual_append_script (endsWith_iff.mpr ⟨"", by simp⟩)
    rw [parted _ ends] at virtual
    contradiction
  · intro notEnds path ends
    apply Bool.eq_false_iff.mpr
    intro virtual
    rw [mapping.isVirtual_iff, endsWith_iff_suffix] at virtual
    rw [endsWith_iff_suffix] at ends
    have inside : mapping.component.toList <:+ mapping.virtualSuffix.toList := by
      apply List.suffix_of_suffix_length_le ends virtual
      simp [virtualSuffix]
    rw [← endsWith_iff_suffix, notEnds] at inside
    contradiction

/-- The component's extension may end with the script's for all that. -/
example : endsWith (Mapping.mk ".vue.ts" ".ts").virtualSuffix ".vue.ts" = false := by
  decide +kernel

/-- Extensions of which neither ends with the other part components from scripts. -/
theorem parted_of_unrelated (scriptDiffers : endsWith mapping.script mapping.component = false)
    (componentDiffers : endsWith mapping.component mapping.script = false) : mapping.Parted := by
  intro path ends
  apply Bool.eq_false_iff.mpr
  intro virtual
  rw [mapping.isVirtual_iff] at virtual
  obtain ⟨front, rfl⟩ := endsWith_iff.mp virtual
  have endsToo : endsWith (front ++ mapping.virtualSuffix) mapping.script = true := by
    rw [virtualSuffix, ← String.append_assoc]
    exact endsWith_append _ _
  cases endsWith_or_endsWith ends endsToo with
  | inl scriptEnds =>
      rw [scriptDiffers] at scriptEnds
      contradiction
  | inr componentEnds =>
      rw [componentDiffers] at componentEnds
      contradiction

namespace Parted

variable (parted : mapping.Parted)

include parted

/-- What a path is translated to is not virtual any more. -/
theorem isVirtual_toComponent (path : String) :
    mapping.isVirtual (mapping.toComponent path) = false := by
  cases virtual : mapping.isVirtual path with
  | true => exact parted _ (endsWith_toComponent virtual)
  | false =>
      rw [toComponent_of_not_isVirtual virtual]
      exact virtual

theorem toComponent_toComponent (path : String) :
    mapping.toComponent (mapping.toComponent path) = mapping.toComponent path :=
  toComponent_of_not_isVirtual (parted.isVirtual_toComponent path)

/-- The path of a script is no component's. -/
theorem toVirtual_toVirtual (path : String) :
    mapping.toVirtual (mapping.toVirtual path) = mapping.toVirtual path := by
  cases ends : endsWith path mapping.component with
  | false => rw [toVirtual_of_not_endsWith ends, toVirtual_of_not_endsWith ends]
  | true =>
      have notEnds : endsWith (path ++ mapping.script) mapping.component = false := by
        apply Bool.eq_false_iff.mpr
        intro endsToo
        have plain := parted _ endsToo
        rw [isVirtual_append_script ends] at plain
        contradiction
      rw [toVirtual_of_endsWith ends, toVirtual_of_not_endsWith notEnds]

end Parted

end Directions

/-! ## The default mapping -/

/-- No path is a component's and a script's at once. -/
theorem endsWith_append_script (front : String) :
    endsWith (front ++ standard.script) standard.component = false := by
  apply Bool.eq_false_iff.mpr
  intro ends
  obtain ⟨other, same⟩ := endsWith_iff.mp ends
  have lastChars := congrArg (fun text => text.toList.getLast?) same
  simp [standard] at lastChars

theorem standard_parted : standard.Parted :=
  parted_iff.mpr (by decide +kernel)

/-- A component's path is no script's. -/
theorem isVirtual_of_endsWith {path : String} (ends : endsWith path standard.component = true) :
    standard.isVirtual path = false :=
  standard_parted path ends

/-- A script is listed under the name that its component is listed under. -/
theorem toVirtual_append_script {path : String}
    (ends : endsWith path standard.component = true) :
    standard.toVirtual (path ++ standard.script) = standard.toVirtual path := by
  rw [toVirtual_of_not_endsWith (endsWith_append_script path), toVirtual_of_endsWith ends]

/-- Two paths are listed under one name exactly if they are one path, or one is a
component's and the other its script's. -/
theorem toVirtual_eq_iff {left right : String} :
    standard.toVirtual left = standard.toVirtual right ↔ left = right ∨
      endsWith left standard.component = true ∧ right = left ++ standard.script ∨
      endsWith right standard.component = true ∧ left = right ++ standard.script := by
  constructor
  · intro same
    cases leftEnds : endsWith left standard.component with
    | true =>
        rw [toVirtual_of_endsWith leftEnds] at same
        cases rightEnds : endsWith right standard.component with
        | true =>
            rw [toVirtual_of_endsWith rightEnds] at same
            exact .inl ((String.append_left_inj _).mp same)
        | false =>
            rw [toVirtual_of_not_endsWith rightEnds] at same
            exact .inr (.inl ⟨rfl, same.symm⟩)
    | false =>
        rw [toVirtual_of_not_endsWith leftEnds] at same
        cases rightEnds : endsWith right standard.component with
        | true =>
            rw [toVirtual_of_endsWith rightEnds] at same
            exact .inr (.inr ⟨rfl, same⟩)
        | false =>
            rw [toVirtual_of_not_endsWith rightEnds] at same
            exact .inl same
  · rintro (rfl | ⟨ends, rfl⟩ | ⟨ends, rfl⟩)
    · rfl
    · exact (toVirtual_append_script ends).symm
    · exact toVirtual_append_script ends

end Mapping

end ScriptView
