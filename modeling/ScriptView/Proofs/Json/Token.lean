import Mathlib.Data.List.TakeWhile
import ScriptView.Json.Token

/-!
# How tokens are written

A number has an integer part without a leading zero, and then it may have a fraction and
an exponent. An element of a string is a character that stands for itself, an escape of
two characters or one of four hexadecimal digits. What is written in this way is read as
one token, whatever follows it; only a number needs something behind it that does not go
on with it.
-/

namespace ScriptView.Json

variable {text rest body : List Char} {tokens : List Token}

/-! ## Blanks -/

/-- A text of blanks. -/
def Blanks (text : List Char) : Prop :=
  ∀ c ∈ text, isBlank c = true

theorem mem_of_isBlank {c : Char} (blank : isBlank c = true) : c ∈ [' ', '\t', '\n', '\r'] := by
  simpa [isBlank, or_assoc] using blank

theorem Blanks.nil : Blanks [] := by
  intro c isMember
  cases isMember

theorem Blanks.cons {c : Char} (isBlank : isBlank c = true) (blanks : Blanks text) :
    Blanks (c :: text) :=
  List.forall_mem_cons.mpr ⟨isBlank, blanks⟩

theorem tokens?_blanks_append (blanks : Blanks text) (rest : List Char) :
    tokens? (text ++ rest) = tokens? rest := by
  induction text with
  | nil => rfl
  | cons c others ih =>
      obtain ⟨blank, blanksBehind⟩ := List.forall_mem_cons.mp blanks
      rw [List.cons_append, tokens?, if_pos blank]
      exact ih blanksBehind

/-- A token is read in front of the tokens behind it. -/
theorem tokens?_of_readToken? {c : Char} {tail : List Char} {token : Token}
    (notBlank : isBlank c = false) (read : readToken? c rest = some (token, tail)) :
    tokens? (c :: rest) = (tokens? tail).map (token :: ·) := by
  rw [tokens?, if_neg (by simp [notBlank])]
  split
  · next nothing =>
    rw [read] at nothing
    contradiction
  · next readToo =>
    rw [read] at readToo
    cases readToo
    rfl

/-! ## Numbers -/

/-- Digits, at least one. -/
structure IsDigits (text : List Char) : Prop where
  nonempty : text ≠ []
  digits : ∀ c ∈ text, c.isDigit = true

/-- The integer part of a number: a zero alone, or digits that start with another one. -/
inductive IsInteger : List Char → Prop where
  | zero : IsInteger ['0']
  | digits {text : List Char} (isDigits : IsDigits text) (noZero : text.head? ≠ some '0') :
      IsInteger text

/-- The fraction of a number, which may be missing. -/
inductive IsFraction : List Char → Prop where
  | missing : IsFraction []
  | digits {text : List Char} (isDigits : IsDigits text) : IsFraction ('.' :: text)

/-- The exponent of a number, which may be missing. -/
inductive IsExponent : List Char → Prop where
  | missing : IsExponent []
  | digits {mark : Char} {sign text : List Char} (isMark : mark ∈ ['e', 'E'])
      (isSign : sign ∈ [[], ['+'], ['-']]) (isDigits : IsDigits text) :
      IsExponent (mark :: (sign ++ text))

/-- A number. -/
inductive IsNumber : List Char → Prop where
  | parts {sign integer fraction exponent : List Char} (isSign : sign ∈ [[], ['-']])
      (isInteger : IsInteger integer) (isFraction : IsFraction fraction)
      (isExponent : IsExponent exponent) :
      IsNumber (sign ++ (integer ++ (fraction ++ exponent)))

/-- What stands behind a value: a blank, a comma, the end of an array or of an object, or
nothing more. -/
def EndsValue (rest : List Char) : Prop :=
  ∀ c ∈ rest.head?, isBlank c = true ∨ c ∈ [',', ']', '}']

theorem EndsValue.cons {c : Char} (ends : c ∈ [',', ']', '}']) : EndsValue (c :: rest) := by
  intro d isHead
  cases isHead
  exact .inr ends

theorem EndsValue.blanks_append (ends : EndsValue rest) (blanks : Blanks text) :
    EndsValue (text ++ rest) := by
  cases text with
  | nil => exact ends
  | cons c others =>
      intro d isHead
      cases isHead
      exact .inl (blanks c List.mem_cons_self)

/-- What ends a value does not go on with a number. -/
theorem EndsValue.not_mem (ends : EndsValue rest) {c : Char} (isHead : c ∈ rest.head?) :
    c.isDigit = false ∧ c ≠ '.' ∧ c ∉ ['e', 'E'] := by
  have all : ∀ d ∈ [' ', '\t', '\n', '\r'] ++ [',', ']', '}'],
      d.isDigit = false ∧ d ≠ '.' ∧ d ∉ ['e', 'E'] := by
    simp
  cases ends c isHead with
  | inl blank => exact all c (List.mem_append_left _ (mem_of_isBlank blank))
  | inr closes => exact all c (List.mem_append_right _ closes)

theorem IsDigits.exists_cons (isDigits : IsDigits text) :
    ∃ c others, text = c :: others ∧ c.isDigit = true := by
  cases text with
  | nil => exact absurd rfl isDigits.nonempty
  | cons c others => exact ⟨c, others, rfl, isDigits.digits c List.mem_cons_self⟩

theorem passDigits?_append (isDigits : IsDigits text)
    (ends : ∀ c ∈ rest.head?, c.isDigit = false) : passDigits? (text ++ rest) = some rest := by
  obtain ⟨c, others, rfl, isDigit⟩ := isDigits.exists_cons
  have behind : ∀ d ∈ others, d.isDigit = true := fun d member =>
    isDigits.digits d (List.mem_cons_of_mem c member)
  rw [List.cons_append, passDigits?, if_pos isDigit, List.dropWhile_append_of_pos behind]
  cases rest with
  | nil => rfl
  | cons d further => rw [List.dropWhile_cons_of_neg (by simp [ends d rfl])]

theorem passInteger?_append (isInteger : IsInteger text)
    (ends : ∀ c ∈ rest.head?, c.isDigit = false) : passInteger? (text ++ rest) = some rest := by
  cases isInteger with
  | zero => rfl
  | digits isDigits noZero =>
      rw [← passDigits?_append isDigits ends, passInteger?.eq_def]
      obtain ⟨c, others, rfl, -⟩ := isDigits.exists_cons
      split
      · next isZero =>
        cases isZero
        exact absurd rfl noZero
      · rfl

theorem dropSign_append {sign : List Char} (isSign : sign ∈ [[], ['+'], ['-']])
    (isDigits : IsDigits text) : dropSign (sign ++ (text ++ rest)) = text ++ rest := by
  simp only [List.mem_cons, List.not_mem_nil, or_false] at isSign
  rcases isSign with rfl | rfl | rfl
  · obtain ⟨c, others, rfl, isDigit⟩ := isDigits.exists_cons
    rw [dropSign.eq_def]
    split
    · next isPlus =>
      cases isPlus
      contradiction
    · next isMinus =>
      cases isMinus
      contradiction
    · rfl
  · rfl
  · rfl

theorem passExponent?_append (isExponent : IsExponent text) (ends : EndsValue rest) :
    passExponent? (text ++ rest) = some rest := by
  cases isExponent with
  | missing =>
      rw [List.nil_append, passExponent?.eq_def]
      split
      · exact absurd List.mem_cons_self (ends.not_mem rfl).2.2
      · exact absurd (List.mem_cons_of_mem _ List.mem_cons_self) (ends.not_mem rfl).2.2
      · rfl
  | @digits mark sign digits isMark isSign isDigits =>
      have passes : passDigits? (dropSign (sign ++ digits ++ rest)) = some rest := by
        rw [List.append_assoc, dropSign_append isSign isDigits]
        exact passDigits?_append isDigits fun c isHead => (ends.not_mem isHead).1
      simp only [List.mem_cons, List.not_mem_nil, or_false] at isMark
      rcases isMark with rfl | rfl
      · exact passes
      · exact passes

theorem passFraction?_append (isFraction : IsFraction text)
    (noPoint : ∀ c ∈ rest.head?, c.isDigit = false ∧ c ≠ '.') :
    passFraction? (text ++ rest) = some rest := by
  cases isFraction with
  | missing =>
      rw [List.nil_append, passFraction?.eq_def]
      split
      · exact absurd rfl (noPoint _ rfl).2
      · rfl
  | digits isDigits => exact passDigits?_append isDigits fun c isHead => (noPoint c isHead).1

theorem IsInteger.exists_cons (isInteger : IsInteger text) :
    ∃ c others, text = c :: others ∧ c.isDigit = true := by
  cases isInteger with
  | zero => exact ⟨'0', [], rfl, rfl⟩
  | digits isDigits _ => exact isDigits.exists_cons

theorem IsExponent.head?_append (isExponent : IsExponent text) (ends : EndsValue rest) :
    ∀ c ∈ (text ++ rest).head?, c.isDigit = false ∧ c ≠ '.' := by
  intro c isHead
  cases isExponent with
  | missing =>
      obtain ⟨notDigit, notPoint, -⟩ := ends.not_mem isHead
      exact ⟨notDigit, notPoint⟩
  | digits isMark _ _ =>
      cases isHead
      simp only [List.mem_cons, List.not_mem_nil, or_false] at isMark
      rcases isMark with rfl | rfl <;> decide

theorem IsFraction.head?_append (isFraction : IsFraction text)
    (notDigit : ∀ c ∈ rest.head?, c.isDigit = false) :
    ∀ c ∈ (text ++ rest).head?, c.isDigit = false := by
  intro c isHead
  cases isFraction with
  | missing => exact notDigit c isHead
  | digits _ =>
      cases isHead
      rfl

/-- A number starts with its sign or with a digit. -/
theorem IsNumber.exists_cons (isNumber : IsNumber text) :
    ∃ c others, text = c :: others ∧ (c = '-' ∨ c.isDigit = true) := by
  cases isNumber with
  | parts isSign isInteger _ _ =>
      obtain ⟨c, others, rfl, isDigit⟩ := isInteger.exists_cons
      simp only [List.mem_cons, List.not_mem_nil, or_false] at isSign
      rcases isSign with rfl | rfl
      · exact ⟨c, _, rfl, .inr isDigit⟩
      · exact ⟨'-', _, rfl, .inl rfl⟩

/-- A number is passed to its end. -/
theorem passNumber?_append (isNumber : IsNumber text) (ends : EndsValue rest) :
    passNumber? (text ++ rest) = some rest := by
  cases isNumber with
  | @parts sign integer fraction exponent isSign isInteger isFraction isExponent =>
      have headExponent := isExponent.head?_append ends
      have headFraction := isFraction.head?_append fun c isHead => (headExponent c isHead).1
      have passes : (do passExponent? (← passFraction? (← passInteger?
          (integer ++ (fraction ++ (exponent ++ rest)))))) = some rest := by
        rw [passInteger?_append isInteger headFraction, Option.bind_eq_bind, Option.bind_some,
          passFraction?_append isFraction headExponent, Option.bind_some,
          passExponent?_append isExponent ends]
      obtain ⟨c, others, isInteger, isDigit⟩ := isInteger.exists_cons
      simp only [List.mem_cons, List.not_mem_nil, or_false] at isSign
      rw [List.append_assoc, List.append_assoc, List.append_assoc]
      rcases isSign with rfl | rfl
      · rw [isInteger, List.cons_append] at passes ⊢
        rw [List.nil_append, passNumber?]
        · exact passes
        · intro others isMinus
          cases isMinus
          contradiction
      · exact passes

theorem readToken?_of_number {c : Char} (starts : c = '-' ∨ c.isDigit = true) (rest : List Char) :
    readToken? c rest =
      (passNumber? (c :: rest)).map fun tail =>
        (.number (Text.before (c :: rest) tail), tail) := by
  have all : ∀ mark ∈ ['{', '}', '[', ']', ',', ':', '"', 'n', 't', 'f'],
      ¬(mark = '-' ∨ mark.isDigit = true) := by
    simp
  rw [readToken?]
  all_goals
    intro isMark
    exact all c (by simp [isMark]) starts

/-- A number is read as one token. -/
theorem tokens?_number_append (isNumber : IsNumber text) (ends : EndsValue rest) :
    tokens? (text ++ rest) = (tokens? rest).map (.number text :: ·) := by
  obtain ⟨c, others, isText, starts⟩ := isNumber.exists_cons
  have passes := passNumber?_append isNumber ends
  have notBlank : isBlank c = false := by
    have all : ∀ d ∈ [' ', '\t', '\n', '\r'], ¬(d = '-' ∨ d.isDigit = true) := by simp
    exact Bool.eq_false_iff.mpr fun blank => all c (mem_of_isBlank blank) starts
  have read : readToken? c (others ++ rest) = some (.number text, rest) := by
    rw [readToken?_of_number starts, ← List.cons_append, ← isText, passes, Option.map_some,
      Text.before_append_right]
  rw [isText, List.cons_append, tokens?_of_readToken? notBlank read, isText]

/-! ## Strings -/

/-- The hexadecimal digits with their values. -/
def hexDigits : List (Char × Nat) :=
  "0123456789abcdef".toList.zipIdx ++ "ABCDEF".toList.zipIdx 10

/-- The characters that have an escape of two characters, behind the second one of it. -/
def shortEscapes : List (Char × Char) :=
  [('"', '"'), ('\\', '\\'), ('/', '/'), ('b', '\x08'), ('f', '\x0c'), ('n', '\n'), ('r', '\r'),
    ('t', '\t')]

/-- How an element of a string is written. -/
inductive StringUnit.Written : StringUnit → List Char → Prop where
  | plain {c : Char} (noQuote : c ≠ '"') (noBackslash : c ≠ '\\') (noControl : ' ' ≤ c) :
      Written (.char c) [c]
  | short {mark c : Char} (escape : (mark, c) ∈ shortEscapes) : Written (.char c) ['\\', mark]
  | code {first second third fourth : Char} {a b c d : Nat} (isFirst : (first, a) ∈ hexDigits)
      (isSecond : (second, b) ∈ hexDigits) (isThird : (third, c) ∈ hexDigits)
      (isFourth : (fourth, d) ∈ hexDigits) :
      Written (.code (((a * 16 + b) * 16 + c) * 16 + d)) ['\\', 'u', first, second, third, fourth]

/-- How a string is written between its quotes. -/
inductive WrittenUnits : List StringUnit → List Char → Prop where
  | nil : WrittenUnits [] []
  | cons {unit : StringUnit} {units : List StringUnit} {part text : List Char}
      (first : unit.Written part) (others : WrittenUnits units text) :
      WrittenUnits (unit :: units) (part ++ text)

theorem hexDigit?_of_mem {c : Char} {value : Nat} (isDigit : (c, value) ∈ hexDigits) :
    hexDigit? c = some value := by
  have all : ∀ pair ∈ hexDigits, hexDigit? pair.1 = some pair.2 := by decide +kernel
  exact all _ isDigit

theorem escaped?_of_mem {mark c : Char} (escape : (mark, c) ∈ shortEscapes) :
    escaped? mark = some c ∧ mark ≠ 'u' := by
  have all : ∀ pair ∈ shortEscapes, escaped? pair.1 = some pair.2 ∧ pair.1 ≠ 'u' := by
    decide +kernel
  exact all _ escape

theorem codeUnit?_of_mem {first second third fourth : Char} {a b c d : Nat}
    (isFirst : (first, a) ∈ hexDigits) (isSecond : (second, b) ∈ hexDigits)
    (isThird : (third, c) ∈ hexDigits) (isFourth : (fourth, d) ∈ hexDigits) :
    codeUnit? first second third fourth = some (((a * 16 + b) * 16 + c) * 16 + d) := by
  rw [codeUnit?, hexDigit?_of_mem isFirst, hexDigit?_of_mem isSecond, hexDigit?_of_mem isThird,
    hexDigit?_of_mem isFourth]
  rfl

/-- An element of a string and those behind it, if they can be read. -/
def StringUnit.inFrontOf (unit : StringUnit) (read : Option (List StringUnit × List Char)) :
    Option (List StringUnit × List Char) :=
  read.map fun (units, tail) => (unit :: units, tail)

theorem readString?_plain {c : Char} (noQuote : c ≠ '"') (noBackslash : c ≠ '\\')
    (noControl : ' ' ≤ c) (text : List Char) :
    readString? (c :: text) = StringUnit.inFrontOf (.char c) (readString? text) := by
  rw [readString?]
  · rw [if_neg (Char.not_lt.mpr noControl)]
    cases readString? text <;> rfl
  · exact noQuote
  · intro first second third fourth others isBackslash
    contradiction
  · intro mark others isBackslash
    contradiction

theorem readString?_short {mark c : Char} (escape : (mark, c) ∈ shortEscapes)
    (text : List Char) :
    readString? ('\\' :: mark :: text) = StringUnit.inFrontOf (.char c) (readString? text) := by
  obtain ⟨escapes, notCode⟩ := escaped?_of_mem escape
  rw [readString?]
  · rw [escapes]
    cases readString? text <;> rfl
  · intro first second third fourth others isCode
    contradiction

theorem readString?_code {first second third fourth : Char} {a b c d : Nat}
    (isFirst : (first, a) ∈ hexDigits) (isSecond : (second, b) ∈ hexDigits)
    (isThird : (third, c) ∈ hexDigits) (isFourth : (fourth, d) ∈ hexDigits) (text : List Char) :
    readString? ('\\' :: 'u' :: first :: second :: third :: fourth :: text) =
      StringUnit.inFrontOf (.code (((a * 16 + b) * 16 + c) * 16 + d)) (readString? text) := by
  rw [readString?, codeUnit?_of_mem isFirst isSecond isThird isFourth]
  cases readString? text <;> rfl

/-- An element of a string is read in front of the others. -/
theorem readString?_part {unit : StringUnit} {part : List Char} (written : unit.Written part)
    (text : List Char) : readString? (part ++ text) = unit.inFrontOf (readString? text) := by
  cases written with
  | plain noQuote noBackslash noControl =>
      exact readString?_plain noQuote noBackslash noControl text
  | short escape => exact readString?_short escape text
  | code isFirst isSecond isThird isFourth =>
      exact readString?_code isFirst isSecond isThird isFourth text

/-- A string is read to its closing quote. -/
theorem readString?_append {units : List StringUnit} (written : WrittenUnits units text)
    (rest : List Char) : readString? (text ++ '"' :: rest) = some (units, rest) := by
  induction written with
  | nil => rw [List.nil_append, readString?]
  | cons first _ ih =>
      rw [List.append_assoc, readString?_part first, ih]
      rfl

/-- A string is read as one token. -/
theorem tokens?_string_append {units : List StringUnit} (written : WrittenUnits units text)
    (rest : List Char) :
    tokens? ('"' :: (text ++ '"' :: rest)) = (tokens? rest).map (.string units :: ·) := by
  have read : readToken? '"' (text ++ '"' :: rest) = some (.string units, rest) := by
    rw [readToken?, readString?_append written]
    rfl
  exact tokens?_of_readToken? rfl read

end ScriptView.Json
