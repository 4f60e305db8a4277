import ScriptView.Text.Search

/-!
# Tokens of JSON text

A JSON text is a row of tokens with blanks between them. Only the four blanks
of JSON separate tokens; a control character inside a string is an error, as is
a number with a leading zero or without digits behind its point. A string keeps
its escapes of single code units, since only its reader knows whether a unit of
a surrogate pair may stand alone.
-/

namespace ScriptView.Json

/-- The blanks of JSON. -/
def isBlank (c : Char) : Bool :=
  c == ' ' || c == '\t' || c == '\n' || c == '\r'

/-- One element of a string: a character, or the code unit that an escape of
four hexadecimal digits gives. -/
inductive StringUnit where
  | char (c : Char)
  | code (unit : Nat)
  deriving DecidableEq, Repr

/-- A token. A number is kept as it is written. -/
inductive Token where
  | openBrace
  | closeBrace
  | openBracket
  | closeBracket
  | comma
  | colon
  | null
  | bool (value : Bool)
  | number (text : List Char)
  | string (units : List StringUnit)
  deriving DecidableEq, Repr

/-- The value of a hexadecimal digit of either case. -/
def hexDigit? (c : Char) : Option Nat :=
  if '0' ≤ c ∧ c ≤ '9' then some (c.toNat - '0'.toNat)
  else if 'a' ≤ c ∧ c ≤ 'f' then some (c.toNat - 'a'.toNat + 10)
  else if 'A' ≤ c ∧ c ≤ 'F' then some (c.toNat - 'A'.toNat + 10)
  else none

/-- The code unit that four hexadecimal digits give. -/
def codeUnit? (a b c d : Char) : Option Nat := do
  let a ← hexDigit? a
  let b ← hexDigit? b
  let c ← hexDigit? c
  let d ← hexDigit? d
  return ((a * 16 + b) * 16 + c) * 16 + d

/-- The character of an escape of two characters. -/
def escaped? : Char → Option Char
  | '"' => some '"'
  | '\\' => some '\\'
  | '/' => some '/'
  | 'b' => some '\x08'
  | 'f' => some '\x0c'
  | 'n' => some '\n'
  | 'r' => some '\r'
  | 't' => some '\t'
  | _ => none

/-- The elements of a string from behind its opening quote, and the text behind
its closing quote. -/
def readString? : List Char → Option (List StringUnit × List Char)
  | [] => none
  | '"' :: rest => some ([], rest)
  | '\\' :: 'u' :: a :: b :: c :: d :: rest => do
      let unit ← codeUnit? a b c d
      let (units, tail) ← readString? rest
      return (.code unit :: units, tail)
  | '\\' :: c :: rest => do
      let c ← escaped? c
      let (units, tail) ← readString? rest
      return (.char c :: units, tail)
  | c :: rest =>
      if c < ' ' then none
      else do
        let (units, tail) ← readString? rest
        return (.char c :: units, tail)

/-- The text behind at least one digit. -/
def passDigits? : List Char → Option (List Char)
  | c :: rest => if c.isDigit then some (rest.dropWhile Char.isDigit) else none
  | [] => none

/-- The text behind the integer part of a number, which is a zero alone or
starts with another digit. -/
def passInteger? : List Char → Option (List Char)
  | '0' :: rest => some rest
  | text => passDigits? text

/-- The text behind the fraction of a number, if there is one. -/
def passFraction? : List Char → Option (List Char)
  | '.' :: rest => passDigits? rest
  | text => some text

/-- A text without the sign that it starts with, if it starts with one. -/
def dropSign : List Char → List Char
  | '+' :: rest => rest
  | '-' :: rest => rest
  | text => text

/-- The text behind the exponent of a number, if there is one. -/
def passExponent? : List Char → Option (List Char)
  | 'e' :: rest => passDigits? (dropSign rest)
  | 'E' :: rest => passDigits? (dropSign rest)
  | text => some text

/-- The text behind a number. -/
def passNumber? (text : List Char) : Option (List Char) := do
  let unsigned := match text with
    | '-' :: rest => rest
    | text => text
  passExponent? (← passFraction? (← passInteger? unsigned))

/-- A token that is a fixed word. -/
def readWord? (word : String) (token : Token) (text : List Char) : Option (Token × List Char) :=
  if word.toList.isPrefixOf text then some (token, text.drop word.length) else none

/-- The token that starts with a character, and the text behind it. -/
def readToken? (c : Char) (rest : List Char) : Option (Token × List Char) :=
  match c with
  | '{' => some (.openBrace, rest)
  | '}' => some (.closeBrace, rest)
  | '[' => some (.openBracket, rest)
  | ']' => some (.closeBracket, rest)
  | ',' => some (.comma, rest)
  | ':' => some (.colon, rest)
  | '"' => (readString? rest).map fun (units, tail) => (.string units, tail)
  | 'n' => readWord? "ull" .null rest
  | 't' => readWord? "rue" (.bool true) rest
  | 'f' => readWord? "alse" (.bool false) rest
  | _ => (passNumber? (c :: rest)).map fun tail => (.number (Text.before (c :: rest) tail), tail)

section Tails

theorem readString?_suffix {text tail : List Char} {units : List StringUnit}
    (read : readString? text = some (units, tail)) : tail <:+ text := by
  fun_induction readString? text generalizing units tail with
  | case1 => simp at read
  | case2 => cases read; exact List.suffix_cons _ _
  | case3 a b c d rest ih =>
    simp only [Option.bind_eq_bind, Option.bind_eq_some_iff, Prod.exists] at read
    obtain ⟨_, _, _, _, inner, same⟩ := read
    cases same
    exact (ih inner).trans ⟨['\\', 'u', a, b, c, d], rfl⟩
  | case4 c rest _ ih =>
    simp only [Option.bind_eq_bind, Option.bind_eq_some_iff, Prod.exists] at read
    obtain ⟨_, _, _, _, inner, same⟩ := read
    cases same
    exact (ih inner).trans ⟨['\\', c], rfl⟩
  | case5 => simp at read
  | case6 c rest _ _ _ _ ih =>
    simp only [Option.bind_eq_bind, Option.bind_eq_some_iff, Prod.exists] at read
    obtain ⟨_, _, inner, same⟩ := read
    cases same
    exact (ih inner).trans (List.suffix_cons _ _)

theorem passDigits?_suffix {text tail : List Char} (read : passDigits? text = some tail) :
    tail <:+ text ∧ tail.length < text.length := by
  cases text with
  | nil => simp [passDigits?] at read
  | cons c rest =>
    rw [passDigits?] at read
    split at read
    · cases read
      have suffix := List.dropWhile_suffix Char.isDigit (l := rest)
      exact ⟨suffix.trans (List.suffix_cons _ _), Nat.lt_succ_of_le suffix.length_le⟩
    · simp at read

theorem passInteger?_suffix {text tail : List Char} (read : passInteger? text = some tail) :
    tail <:+ text ∧ tail.length < text.length := by
  rw [passInteger?.eq_def] at read
  split at read
  · cases read
    exact ⟨List.suffix_cons _ _, by simp⟩
  · exact passDigits?_suffix read

theorem passFraction?_suffix {text tail : List Char} (read : passFraction? text = some tail) :
    tail <:+ text := by
  rw [passFraction?.eq_def] at read
  split at read
  · exact (passDigits?_suffix read).1.trans (List.suffix_cons _ _)
  · cases read; exact List.suffix_refl _

theorem dropSign_suffix (text : List Char) : dropSign text <:+ text := by
  rw [dropSign.eq_def]
  split
  · exact List.suffix_cons _ _
  · exact List.suffix_cons _ _
  · exact List.suffix_refl _

theorem passExponent?_suffix {text tail : List Char} (read : passExponent? text = some tail) :
    tail <:+ text := by
  rw [passExponent?.eq_def] at read
  split at read
  · exact ((passDigits?_suffix read).1.trans (dropSign_suffix _)).trans (List.suffix_cons _ _)
  · exact ((passDigits?_suffix read).1.trans (dropSign_suffix _)).trans (List.suffix_cons _ _)
  · cases read; exact List.suffix_refl _

theorem length_passNumber?_lt {text tail : List Char} (read : passNumber? text = some tail) :
    tail.length < text.length := by
  simp only [passNumber?, Option.bind_eq_bind, Option.bind_eq_some_iff] at read
  obtain ⟨behindInteger, integer, behindFraction, fraction, exponent⟩ := read
  have first := (passInteger?_suffix integer).2
  have second := (passFraction?_suffix fraction).length_le
  have third := (passExponent?_suffix exponent).length_le
  split at first
  · simp only [List.length_cons]; omega
  · omega

/-- A token has at least one character. -/
theorem length_readToken?_le {c : Char} {rest tail : List Char} {token : Token}
    (read : readToken? c rest = some (token, tail)) : tail.length ≤ rest.length := by
  have word {w : String} {t : Token} (r : readWord? w t rest = some (token, tail)) :
      tail.length ≤ rest.length := by
    rw [readWord?] at r
    split at r
    · cases r; simp
    · simp at r
  rw [readToken?.eq_def] at read
  split at read
  · cases read; exact Nat.le_refl _
  · cases read; exact Nat.le_refl _
  · cases read; exact Nat.le_refl _
  · cases read; exact Nat.le_refl _
  · cases read; exact Nat.le_refl _
  · cases read; exact Nat.le_refl _
  · obtain ⟨⟨units, last⟩, readUnits, same⟩ := Option.map_eq_some_iff.mp read
    cases same
    exact (readString?_suffix readUnits).length_le
  · exact word read
  · exact word read
  · exact word read
  · obtain ⟨last, passed, same⟩ := Option.map_eq_some_iff.mp read
    cases same
    exact Nat.le_of_lt_succ (length_passNumber?_lt passed)

end Tails

/-- The tokens of a text, if it has nothing but tokens and blanks. -/
def tokens? (text : List Char) : Option (List Token) :=
  match text with
  | [] => some []
  | c :: rest =>
      if isBlank c then tokens? rest
      else
        match read : readToken? c rest with
        | none => none
        | some (token, tail) =>
            have : tail.length < rest.length + 1 := Nat.lt_succ_of_le (length_readToken?_le read)
            (tokens? tail).map (token :: ·)
termination_by text.length

end ScriptView.Json
