import ScriptView.Json.Value
import ScriptView.Json.Writer
import ScriptView.Mapping.Basic

/-!
# Mappings as JSON

A mapping is written as an object with two members. It is read from an object
with at most one member of each name, or from an array with the extensions in
order; what is missing keeps its default, and other members are passed over. A
mapping that was read is validated.

Texts are read, and mappings built and written, by a library for JSON, so that
reading is defined for any reader and builder. The ones given here serve to run
it.
-/

namespace ScriptView.Mapping

/-- The member that holds the component's extension. -/
def componentName : String := "componentExtension"

/-- The member that holds the script's extension. -/
def scriptName : String := "scriptExtension"

/-- The extensions met so far. -/
structure Draft where
  component? : Option String := none
  script? : Option String := none

namespace Draft

/-- The mapping in which what was not met has its default. -/
def complete (met : Draft) : Mapping where
  component := met.component?.getD standard.component
  script := met.script?.getD standard.script

/-- Set an extension that was not met before. -/
def set? (met : Option String) (value : Json.Value) : Option (Option String) :=
  match met, value with
  | none, .string raw => raw.decode?.map some
  | _, _ => none

/-- Take in a member of an object. Its name has to make sense, also if it is
not one of the two. -/
def addMember? (met : Draft) (member : Json.RawString × Json.Value) : Option Draft := do
  let name ← member.1.decode?
  if name = componentName then
    return { met with component? := ← set? met.component? member.2 }
  else if name = scriptName then
    return { met with script? := ← set? met.script? member.2 }
  else
    return met

end Draft

/-- The text of a value that is a string. -/
def stringOf? : Json.Value → Option String
  | .string raw => raw.decode?
  | _ => none

/-- The mapping that a JSON value gives. -/
def ofValue? : Json.Value → Option Mapping
  | .object members => do
      let met ← members.foldlM Draft.addMember? {}
      return met.complete
  | .array [] => some standard
  | .array [component] => do
      return { component := ← stringOf? component }
  | .array [component, script] => do
      return { component := ← stringOf? component, script := ← stringOf? script }
  | _ => none

/-- Read a mapping, with a reader of texts and a builder of mappings from the
values read, and validate it. -/
def ofJsonWith (read : String → Option Json.Value) (build : Json.Value → Option Mapping)
    (text : String) : Except Error Mapping :=
  match (read text).bind build with
  | some mapping => mapping.validated
  | none => .error .json

/-- Read and validate a mapping. -/
def ofJson : String → Except Error Mapping :=
  ofJsonWith Json.parse? ofValue?

/-- A mapping as an object without blanks, the component's extension first. -/
def toJson (mapping : Mapping) : String :=
  String.ofList <|
    '{' :: Json.writeMember componentName mapping.component ++
      ',' :: Json.writeMember scriptName mapping.script ++ ['}']

end ScriptView.Mapping
