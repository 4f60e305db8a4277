import ScriptView.Json.Token

/-!
# Writing JSON strings

A string is written with as few escapes as JSON allows: the quote, the
backslash and the controls below the space, of which five have an escape of two
characters. All else stands for itself. Other writers may use other escapes; the
theory of mappings only asks for what the grammar derives.
-/

namespace ScriptView.Json

/-- A hexadecimal digit in lower case. -/
def hexDigit (value : Nat) : Char :=
  (Nat.toDigits 16 (value % 16)).headD '0'

/-- How a character is written in a string. -/
def writeChar (c : Char) : List Char :=
  if c = '"' then ['\\', '"']
  else if c = '\\' then ['\\', '\\']
  else if c = '\x08' then ['\\', 'b']
  else if c = '\t' then ['\\', 't']
  else if c = '\n' then ['\\', 'n']
  else if c = '\x0c' then ['\\', 'f']
  else if c = '\r' then ['\\', 'r']
  else if c < ' ' then
    ['\\', 'u', '0', '0', hexDigit (c.toNat / 16), hexDigit c.toNat]
  else [c]

/-- A string in quotes. -/
def writeString (text : String) : List Char :=
  '"' :: text.toList.flatMap writeChar ++ ['"']

/-- A member of an object whose value is a string. -/
def writeMember (name value : String) : List Char :=
  writeString name ++ ':' :: writeString value

end ScriptView.Json
