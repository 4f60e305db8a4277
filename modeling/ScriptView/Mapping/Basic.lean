import ScriptView.Error
import ScriptView.Text.Ending

/-!
# Extension mappings

A mapping names the extension of component documents and the one that is
appended to a component's path to form the path of its script. Paths that end
with both, in that order, are virtual; the two directions are inverse to each
other between virtual paths and paths of components and leave all others alone.
-/

namespace ScriptView

open Text

/-- The extensions of components and of their scripts. -/
structure Mapping where
  component : String := ".vue"
  script : String := ".ts"
  deriving DecidableEq, Repr

namespace Mapping

/-- The default mapping, of `.vue` components to `.ts` scripts. -/
def standard : Mapping := {}

/-- The ending of a virtual path. -/
def virtualSuffix (mapping : Mapping) : String :=
  mapping.component ++ mapping.script

/-- Whether a path names the script of a component. -/
def isVirtual (mapping : Mapping) (path : String) : Bool :=
  match dropEnding? path mapping.script with
  | some front => endsWith front mapping.component
  | none => false

/-- The path of a component's script; any other path stays as it is. -/
def toVirtual (mapping : Mapping) (path : String) : String :=
  if endsWith path mapping.component then path ++ mapping.script else path

/-- The path of the component that a virtual path belongs to; any other path
stays as it is. -/
def toComponent (mapping : Mapping) (path : String) : String :=
  match dropEnding? path mapping.script with
  | some front => if endsWith front mapping.component then front else path
  | none => path

/-- What is wrong with an extension. It has a leading dot with something behind
it, and no path separator. -/
def extensionFlaw? (extension : String) : Option ExtensionFlaw :=
  match extension.toList with
  | '.' :: _ :: _ =>
      if extension.toList.any fun c => c == '/' || c == '\\' then some (.separator extension)
      else none
  | _ => some (.noLeadingDot extension)

/-- What is wrong with a mapping; the component's extension is looked at first. -/
def flaw? (mapping : Mapping) : Option ExtensionFlaw :=
  extensionFlaw? mapping.component <|> extensionFlaw? mapping.script

/-- A mapping without a flaw. -/
def validated (mapping : Mapping) : Except Error Mapping :=
  match mapping.flaw? with
  | some flaw => .error (.invalidConfig flaw)
  | none => .ok mapping

/-- A path is virtual if it ends with both extensions. -/
theorem isVirtual_iff (mapping : Mapping) (path : String) :
    mapping.isVirtual path = true ↔ endsWith path mapping.virtualSuffix = true := by
  rw [isVirtual, endsWith_iff, virtualSuffix]
  split
  · next front dropped =>
    obtain rfl := dropEnding?_eq_some_iff.mp dropped
    rw [endsWith_iff]
    constructor
    · rintro ⟨rest, rfl⟩
      exact ⟨rest, by rw [String.append_assoc]⟩
    · rintro ⟨rest, eq⟩
      refine ⟨rest, ?_⟩
      rw [← String.append_assoc] at eq
      exact String.append_left_inj _ |>.mp eq
  · next dropped =>
    constructor
    · simp
    · rintro ⟨rest, rfl⟩
      rw [← String.append_assoc, dropEnding?_append] at dropped
      simp at dropped

/-- A virtual path leads to its component. -/
@[simp] theorem toComponent_toVirtual (mapping : Mapping) {path : String}
    (ends : endsWith path mapping.component = true) :
    mapping.toComponent (mapping.toVirtual path) = path := by
  simp [toComponent, toVirtual, ends]

end Mapping

end ScriptView
