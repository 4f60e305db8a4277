/-!
# The literal part of a pattern

A search of a directory tree need not start at the top if the pattern begins
with segments that hold no special character.
-/

namespace ScriptView.Glob

/-- The characters by which a pattern differs from a plain path. -/
def isSpecial (c : Char) : Bool :=
  c == '*' || c == '?' || c == '[' || c == '{'

/-- Whether a pattern differs from a plain path. -/
def hasSpecial (pattern : String) : Bool :=
  pattern.toList.any isSpecial

/-- What stands before the last slash of a text, which is the slash itself if
nothing stands before it, and nothing if there is none. -/
def parentPart (text : List Char) : List Char :=
  match (text.reverse.dropWhile (· != '/')) with
  | [] => []
  | [slash] => [slash]
  | _ :: front => front.reverse

/-- The segments of a pattern before the first one with a special character; of
a plain path, all but the last. -/
def literalDirectory (pattern : String) : String :=
  String.ofList (parentPart (pattern.toList.takeWhile fun c => !isSpecial c))

end ScriptView.Glob
