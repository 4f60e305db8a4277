import ScriptView.Text.GraphemeExtend
import ScriptView.Text.Invisible

/-!
# Quoted texts in messages

A message quotes a text between double quotes. The quote, the backslash and
four controls have an escape of two characters; any other character that could
not be seen on its own is given by its code point in hexadecimal.
-/

namespace ScriptView.Text

/-- The code point of a character in braces, in lower-case hexadecimal without
leading zeros. -/
def codePointEscape (c : Char) : List Char :=
  '\\' :: 'u' :: '\x7b' :: Nat.toDigits 16 c.toNat ++ ['\x7d']

/-- How a character is written between quotes. -/
def quotedChar (c : Char) : List Char :=
  if c = '\x00' then ['\\', '0']
  else if c = '\t' then ['\\', 't']
  else if c = '\r' then ['\\', 'r']
  else if c = '\n' then ['\\', 'n']
  else if c = '"' then ['\\', '"']
  else if c = '\\' then ['\\', '\\']
  else if extendsGrapheme c || isInvisible c then codePointEscape c
  else [c]

/-- A text between double quotes. -/
def quoted (text : String) : String :=
  String.ofList ('"' :: text.toList.flatMap quotedChar ++ ['"'])

end ScriptView.Text
