import ScriptView.Json.Token

/-!
# JSON values

A value is read from its tokens in one pass. The reader keeps what is open
around the current place as a stack of frames, so nothing limits how deep
arrays and objects nest. Strings, also those that are names of members, stay
undecoded: the four-digit escapes of a string need to make sense only where its
text is wanted.

Reading JSON is the business of a library. This reader is the one that runs; the
theory of mappings holds of any that reads what the grammar derives for objects.
-/

namespace ScriptView.Json

/-- The text that the elements of a string spell. A leading surrogate needs the
trailing one right behind it. -/
def decodeUnits? : List StringUnit → Option (List Char)
  | [] => some []
  | .char c :: rest => (decodeUnits? rest).map (c :: ·)
  | .code high :: .code low :: rest =>
      if 0xD800 ≤ high ∧ high < 0xDC00 then
        if 0xDC00 ≤ low ∧ low < 0xE000 then
          let c := Char.ofNat (0x10000 + (high - 0xD800) * 0x400 + (low - 0xDC00))
          (decodeUnits? rest).map (c :: ·)
        else none
      else if 0xDC00 ≤ high ∧ high < 0xE000 then none
      else (decodeUnits? (.code low :: rest)).map (Char.ofNat high :: ·)
  | .code unit :: rest =>
      if 0xD800 ≤ unit ∧ unit < 0xE000 then none
      else (decodeUnits? rest).map (Char.ofNat unit :: ·)

/-- A string that is not decoded yet. -/
abbrev RawString := List StringUnit

/-- The string that the elements spell, if they spell one. -/
def RawString.decode? (raw : RawString) : Option String :=
  (decodeUnits? raw).map String.ofList

/-- A JSON value. The members of an object stand in the order of the text, and
a name may occur more than once. -/
inductive Value where
  | null
  | bool (value : Bool)
  | number (text : List Char)
  | string (raw : RawString)
  | array (elements : List Value)
  | object (members : List (RawString × Value))

/-- An array or object that is not closed yet, with what it holds so far in
reverse; in an object also the name that waits for its value. -/
inductive Frame where
  | array (elements : List Value)
  | member (members : List (RawString × Value)) (name : RawString)

/-- What may come next. -/
inductive Reader where
  | needValue (stack : List Frame)
  | needElementOrEnd (stack : List Frame)
  | needNameOrEnd (stack : List Frame)
  | needName (stack : List Frame) (members : List (RawString × Value))
  | needColon (stack : List Frame) (members : List (RawString × Value)) (name : RawString)
  | afterElement (stack : List Frame) (elements : List Value)
  | afterMember (stack : List Frame) (members : List (RawString × Value))
  | done (value : Value)

namespace Reader

/-- Put a finished value where it belongs. -/
def finish (value : Value) : List Frame → Reader
  | [] => .done value
  | .array elements :: stack => .afterElement stack (value :: elements)
  | .member members name :: stack => .afterMember stack ((name, value) :: members)

/-- Start a value with a token. -/
def start? (stack : List Frame) : Token → Option Reader
  | .null => some (finish .null stack)
  | .bool value => some (finish (.bool value) stack)
  | .number text => some (finish (.number text) stack)
  | .string raw => some (finish (.string raw) stack)
  | .openBracket => some (.needElementOrEnd stack)
  | .openBrace => some (.needNameOrEnd stack)
  | .closeBrace | .closeBracket | .comma | .colon => none

/-- Take one token. -/
def step? : Reader → Token → Option Reader
  | .needValue stack, token => start? stack token
  | .needElementOrEnd stack, .closeBracket => some (finish (.array []) stack)
  | .needElementOrEnd stack, token => start? (.array [] :: stack) token
  | .needNameOrEnd stack, .closeBrace => some (finish (.object []) stack)
  | .needNameOrEnd stack, .string name => some (.needColon stack [] name)
  | .needName stack members, .string name => some (.needColon stack members name)
  | .needColon stack members name, .colon =>
      some (.needValue (.member members name :: stack))
  | .afterElement stack elements, .comma => some (.needValue (.array elements :: stack))
  | .afterElement stack elements, .closeBracket =>
      some (finish (.array elements.reverse) stack)
  | .afterMember stack members, .comma => some (.needName stack members)
  | .afterMember stack members, .closeBrace => some (finish (.object members.reverse) stack)
  | _, _ => none

/-- The value that is complete, if one is. -/
def result? : Reader → Option Value
  | .done value => some value
  | _ => none

end Reader

/-- The value that a row of tokens writes. -/
def ofTokens? (tokens : List Token) : Option Value :=
  (tokens.foldlM Reader.step? (Reader.needValue [])).bind Reader.result?

/-- The value that a text writes. -/
def parse? (text : String) : Option Value :=
  (tokens? text.toList).bind ofTokens?

end ScriptView.Json
