/-!
# Blank characters

Two classes of blank characters. Markup separates attributes by the five blanks
of ASCII; a block counts as empty when it holds nothing but characters of the
Unicode property `White_Space`, to which those five belong.
-/

namespace ScriptView.Text

/-- The blanks of markup: space, tab, line feed, form feed and carriage
return. The vertical tab is not one of them. -/
def isMarkupBlank (c : Char) : Bool :=
  c == ' ' || c == '\t' || c == '\n' || c == '\x0c' || c == '\r'

/-- The Unicode property `White_Space`, which has twenty-five characters. -/
def isBlank (c : Char) : Bool :=
  ('\t' ≤ c && c ≤ '\r') || c == ' ' || c == '\u0085' || c == '\u00a0' ||
    c == '\u1680' || ('\u2000' ≤ c && c ≤ '\u200a') || c == '\u2028' ||
    c == '\u2029' || c == '\u202f' || c == '\u205f' || c == '\u3000'

end ScriptView.Text
