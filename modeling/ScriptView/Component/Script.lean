import ScriptView.Component.Outline

/-!
# The script of a component

The script of a component is its setup script or, where there is none, its
plain script. The line feed right behind the opening tag is no part of the
script text: reading drops it once, and writing puts one there. Writing leaves
every character outside the block as it is.
-/

namespace ScriptView.Component

open Text

/-- The block whose content is the script. -/
def Outline.scriptBlock? (outline : Outline) : Option Block :=
  outline.find? .scriptSetup <|> outline.find? .script

/-- A text without the line feed that it starts with, if it starts with one. -/
def dropLineFeed : List Char → List Char
  | '\n' :: rest => rest
  | text => text

/-- The part of a text behind a block that was found in it. -/
def behind (source : List Char) (block : Block) : List Char :=
  source.drop block.stop.before.length

/-- The script text of a component. -/
def scriptText? (source : List Char) : Option (List Char) :=
  (outline source).scriptBlock?.map fun block => dropLineFeed block.content

/-- The component with another script text. -/
def withScriptText? (source script : List Char) : Option (List Char) :=
  (outline source).scriptBlock?.map fun block =>
    block.start.before ++ '\n' :: script ++ behind source block

/-- The script of a component document. -/
def script? (document : String) : Option String :=
  (scriptText? document.toList).map String.ofList

/-- The component document with another script. -/
def withScript? (document script : String) : Option String :=
  (withScriptText? document.toList script.toList).map String.ofList

end ScriptView.Component
