import Mathlib.Data.Set.Function
import ScriptView.Proofs.Mapping

/-!
# Paths that share a component

Between the paths of components and the virtual paths the two directions of a mapping are
inverse to each other, whatever the extensions are. The paths themselves may be of both
sorts at once: with equal extensions, or with an empty one, a virtual path can be the path
of a component that has a script of its own. Only one thing makes two paths lead to one
component for all that: one of them is the component's path, and the other appends the
script's extension to it.
-/

namespace ScriptView.Mapping

open Text

/-- The paths of components. -/
def components (mapping : Mapping) : Set String :=
  {path | endsWith path mapping.component = true}

/-- The paths of components' scripts. -/
def virtuals (mapping : Mapping) : Set String :=
  {path | mapping.isVirtual path = true}

/-- A component's path that is not virtual itself, and the path of its script. -/
structure AreAliases (mapping : Mapping) (component script : String) : Prop where
  ends : component ∈ mapping.components
  notVirtual : component ∉ mapping.virtuals
  appends : script = component ++ mapping.script

variable {mapping : Mapping}

/-! ## The two directions -/

theorem mapsTo_toVirtual : Set.MapsTo mapping.toVirtual mapping.components mapping.virtuals := by
  intro path ends
  change mapping.isVirtual (mapping.toVirtual path) = true
  rw [toVirtual_of_endsWith ends]
  exact isVirtual_append_script ends

theorem mapsTo_toComponent :
    Set.MapsTo mapping.toComponent mapping.virtuals mapping.components := by
  intro path virtual
  exact endsWith_toComponent virtual

/-- A virtual path is the path of its component's script. -/
theorem toVirtual_toComponent {path : String} (virtual : mapping.isVirtual path = true) :
    mapping.toVirtual (mapping.toComponent path) = path := by
  rw [toVirtual_of_endsWith (endsWith_toComponent virtual)]
  exact toComponent_append_script_self virtual

theorem invOn_directions :
    Set.InvOn mapping.toComponent mapping.toVirtual mapping.components mapping.virtuals := by
  constructor
  · intro path ends
    exact mapping.toComponent_toVirtual ends
  · intro path virtual
    exact toVirtual_toComponent virtual

/-! ## Paths with one component -/

namespace AreAliases

variable {component script : String}

/-- Both paths lead to the component. -/
theorem toComponent_eq (aliases : mapping.AreAliases component script) :
    mapping.toComponent component = mapping.toComponent script := by
  have plain : mapping.isVirtual component = false := Bool.eq_false_iff.mpr aliases.notVirtual
  rw [toComponent_of_not_isVirtual plain, aliases.appends, toComponent_append_script aliases.ends]

/-- A script's path is virtual, and its component's path is not. -/
theorem ne (aliases : mapping.AreAliases component script) : component ≠ script := by
  intro same
  have virtual : mapping.isVirtual script = true := by
    rw [aliases.appends]
    exact isVirtual_append_script aliases.ends
  rw [← same] at virtual
  exact aliases.notVirtual virtual

/-- A path that is not virtual and the virtual path of the same component. -/
theorem of_toComponent_eq (plain : mapping.isVirtual component = false)
    (virtual : mapping.isVirtual script = true)
    (same : mapping.toComponent component = mapping.toComponent script) :
    mapping.AreAliases component script := by
  rw [toComponent_of_not_isVirtual plain] at same
  constructor
  · rw [same]
    exact mapsTo_toComponent virtual
  · intro isVirtual
    change mapping.isVirtual component = true at isVirtual
    rw [plain] at isVirtual
    contradiction
  · rw [same]
    exact (toComponent_append_script_self virtual).symm

end AreAliases

/-- Of two different paths with one component exactly one is virtual. -/
theorem areAliases_of_toComponent_eq {left right : String} (differs : left ≠ right)
    (same : mapping.toComponent left = mapping.toComponent right) :
    mapping.AreAliases left right ∨ mapping.AreAliases right left := by
  cases leftVirtual : mapping.isVirtual left with
  | false =>
      cases rightVirtual : mapping.isVirtual right with
      | false =>
          rw [toComponent_of_not_isVirtual leftVirtual,
            toComponent_of_not_isVirtual rightVirtual] at same
          exact absurd same differs
      | true => exact .inl (.of_toComponent_eq leftVirtual rightVirtual same)
  | true =>
      cases rightVirtual : mapping.isVirtual right with
      | false => exact .inr (.of_toComponent_eq rightVirtual leftVirtual same.symm)
      | true =>
          have back := invOn_directions.right.injOn leftVirtual rightVirtual same
          exact absurd back differs

/-- A path is virtual if it ends with both extensions. The two directions are bijections
between the paths of components and the virtual paths and inverse to each other, and each
of them leaves alone what is not on its side. Two different paths have one component
exactly if one of them is a component's path that is not virtual, and the other is the path
of its script. -/
theorem shares_component (mapping : Mapping) :
    (∀ path, mapping.isVirtual path = true ↔ endsWith path mapping.virtualSuffix = true) ∧
      Set.BijOn mapping.toVirtual mapping.components mapping.virtuals ∧
      Set.BijOn mapping.toComponent mapping.virtuals mapping.components ∧
      Set.InvOn mapping.toComponent mapping.toVirtual mapping.components mapping.virtuals ∧
      Set.EqOn mapping.toVirtual id mapping.componentsᶜ ∧
      Set.EqOn mapping.toComponent id mapping.virtualsᶜ ∧
      ∀ left right, left ≠ right ∧ mapping.toComponent left = mapping.toComponent right ↔
        mapping.AreAliases left right ∨ mapping.AreAliases right left := by
  refine ⟨mapping.isVirtual_iff, ?_, ?_, invOn_directions, ?_, ?_, ?_⟩
  · exact invOn_directions.bijOn mapsTo_toVirtual mapsTo_toComponent
  · exact invOn_directions.symm.bijOn mapsTo_toComponent mapsTo_toVirtual
  · intro path notComponent
    exact toVirtual_of_not_endsWith (Bool.eq_false_iff.mpr notComponent)
  · intro path notVirtual
    exact toComponent_of_not_isVirtual (Bool.eq_false_iff.mpr notVirtual)
  · intro left right
    constructor
    · intro shared
      exact areAliases_of_toComponent_eq shared.left shared.right
    · intro aliases
      cases aliases with
      | inl leftFirst => exact ⟨leftFirst.ne, leftFirst.toComponent_eq⟩
      | inr rightFirst => exact ⟨rightFirst.ne.symm, rightFirst.toComponent_eq.symm⟩

/-- With equal extensions the path of a component's script is the path of a component, too.
It shares its own component, and not the one that its path names. -/
theorem shares_component_overlapping :
    "a.ts.ts" ∈ (Mapping.mk ".ts" ".ts").components ∧
      "a.ts.ts" ∈ (Mapping.mk ".ts" ".ts").virtuals ∧
      (Mapping.mk ".ts" ".ts").toComponent "a.ts" =
        (Mapping.mk ".ts" ".ts").toComponent "a.ts.ts" ∧
      (Mapping.mk ".ts" ".ts").toComponent "a.ts.ts" ≠
        (Mapping.mk ".ts" ".ts").toComponent "a.ts.ts.ts" := by
  obtain ⟨-, -, -, -, -, -, sharedIff⟩ := shares_component (Mapping.mk ".ts" ".ts")
  have ends : endsWith "a.ts" ".ts" = true := by decide +kernel
  have plain : (Mapping.mk ".ts" ".ts").isVirtual "a.ts" = false := by decide +kernel
  have endsToo : endsWith "a.ts.ts" ".ts" = true := by decide +kernel
  have virtual : (Mapping.mk ".ts" ".ts").isVirtual "a.ts.ts" = true := by decide +kernel
  have virtualToo : (Mapping.mk ".ts" ".ts").isVirtual "a.ts.ts.ts" = true := by decide +kernel
  have aliases : (Mapping.mk ".ts" ".ts").AreAliases "a.ts" "a.ts.ts" :=
    ⟨ends, Bool.eq_false_iff.mp plain, by decide +kernel⟩
  refine ⟨endsToo, virtual, ((sharedIff _ _).mpr (.inl aliases)).right, ?_⟩
  intro same
  cases (sharedIff "a.ts.ts" "a.ts.ts.ts").mp ⟨by decide, same⟩ with
  | inl aliases => exact aliases.notVirtual virtual
  | inr aliases => exact aliases.notVirtual virtualToo

end ScriptView.Mapping
