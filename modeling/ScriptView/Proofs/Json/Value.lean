import ScriptView.Json.Value
import ScriptView.Json.Writer
import ScriptView.Proofs.Json.Token

/-!
# How values are written

The grammar of JSON texts, with blanks wherever they may stand, and what the strings in a
text spell. Whatever the grammar derives is read as the value that it is derived for, and
the writer writes what the grammar derives.
-/

namespace ScriptView.Json

/-! ## What strings spell -/

/-- The elements of a string spell a text. A character is spelt by itself or by its code
unit, and one that has two code units by both of them. -/
inductive RawString.Spells : RawString → List Char → Prop where
  | nil : Spells [] []
  | char {c : Char} {raw : RawString} {text : List Char} (rest : Spells raw text) :
      Spells (.char c :: raw) (c :: text)
  | unit {c : Char} {raw : RawString} {text : List Char} (isUnit : c.toNat < 0x10000)
      (rest : Spells raw text) : Spells (.code c.toNat :: raw) (c :: text)
  | pair {c : Char} {raw : RawString} {text : List Char} (isPair : 0x10000 ≤ c.toNat)
      (rest : Spells raw text) :
      Spells (.code (0xD800 + (c.toNat - 0x10000) / 0x400) ::
        .code (0xDC00 + (c.toNat - 0x10000) % 0x400) :: raw) (c :: text)

theorem decodeUnits?_unit {code : Nat} (noSurrogate : code < 0xD800 ∨ 0xE000 ≤ code)
    (raw : RawString) :
    decodeUnits? (.code code :: raw) = (decodeUnits? raw).map (Char.ofNat code :: ·) := by
  have notHigh : ¬(0xD800 ≤ code ∧ code < 0xDC00) := by omega
  have notLow : ¬(0xDC00 ≤ code ∧ code < 0xE000) := by omega
  have notAny : ¬(0xD800 ≤ code ∧ code < 0xE000) := by omega
  cases raw with
  | nil => simp only [decodeUnits?, if_neg notAny]
  | cons unit others =>
      cases unit with
      | char c => simp only [decodeUnits?, if_neg notAny]
      | code low => rw [decodeUnits?, if_neg notHigh, if_neg notLow]

theorem decodeUnits?_pair {c : Char} (isPair : 0x10000 ≤ c.toNat) (raw : RawString) :
    decodeUnits? (.code (0xD800 + (c.toNat - 0x10000) / 0x400) ::
        .code (0xDC00 + (c.toNat - 0x10000) % 0x400) :: raw) =
      (decodeUnits? raw).map (c :: ·) := by
  have bound : c.toNat < 0x110000 := by
    have valid := c.valid
    change (c.toNat < _ ∨ _ ∧ c.toNat < _) at valid
    omega
  rw [decodeUnits?, if_pos (by omega), if_pos (by omega)]
  have same : 0x10000 + (0xD800 + (c.toNat - 0x10000) / 0x400 - 0xD800) * 0x400 +
      (0xDC00 + (c.toNat - 0x10000) % 0x400 - 0xDC00) = c.toNat := by omega
  rw [same, Char.ofNat_toNat]

/-- A string is decoded to what it spells. -/
theorem decodeUnits?_of_spells {raw : RawString} {text : List Char} (spells : raw.Spells text) :
    decodeUnits? raw = some text := by
  induction spells with
  | nil => rfl
  | char _ ih =>
      rw [decodeUnits?, ih]
      rfl
  | @unit c raw text isUnit _ ih =>
      have noSurrogate : c.toNat < 0xD800 ∨ 0xE000 ≤ c.toNat := by
        have valid := c.valid
        change (c.toNat < _ ∨ _ < c.toNat ∧ _) at valid
        omega
      rw [decodeUnits?_unit noSurrogate, ih, Char.ofNat_toNat]
      rfl
  | pair isPair _ ih =>
      rw [decodeUnits?_pair isPair, ih]
      rfl

theorem decode?_of_spells {raw : RawString} {text : String} (spells : raw.Spells text.toList) :
    raw.decode? = some text := by
  rw [RawString.decode?, decodeUnits?_of_spells spells, Option.map_some, String.ofList_toList]

/-! ## The grammar -/

/-- What a part of a text stands for: a value, a value with blanks around it, the elements
of an array, a member of an object, or its members. -/
inductive Phrase where
  | value (value : Value)
  | padded (value : Value)
  | elements (elements : List Value)
  | member (member : RawString × Value)
  | members (members : List (RawString × Value))

/-- The texts that are written for a phrase. -/
inductive Written : Phrase → List Char → Prop where
  | null : Written (.value .null) ['n', 'u', 'l', 'l']
  | truth : Written (.value (.bool true)) ['t', 'r', 'u', 'e']
  | falsehood : Written (.value (.bool false)) ['f', 'a', 'l', 's', 'e']
  | number {text : List Char} (isNumber : IsNumber text) : Written (.value (.number text)) text
  | string {raw : RawString} {text : List Char} (units : WrittenUnits raw text) :
      Written (.value (.string raw)) ('"' :: (text ++ ['"']))
  | emptyArray {blanks : List Char} (isBlank : Blanks blanks) :
      Written (.value (.array [])) ('[' :: (blanks ++ [']']))
  | array {elements : List Value} {text : List Char} (inside : Written (.elements elements) text) :
      Written (.value (.array elements)) ('[' :: (text ++ [']']))
  | emptyObject {blanks : List Char} (isBlank : Blanks blanks) :
      Written (.value (.object [])) ('{' :: (blanks ++ ['}']))
  | object {members : List (RawString × Value)} {text : List Char}
      (inside : Written (.members members) text) :
      Written (.value (.object members)) ('{' :: (text ++ ['}']))
  | padded {value : Value} {before text after : List Char} (blanksBefore : Blanks before)
      (inside : Written (.value value) text) (blanksAfter : Blanks after) :
      Written (.padded value) (before ++ (text ++ after))
  | lastElement {value : Value} {text : List Char} (last : Written (.padded value) text) :
      Written (.elements [value]) text
  | element {value : Value} {elements : List Value} {text more : List Char}
      (first : Written (.padded value) text) (others : Written (.elements elements) more) :
      Written (.elements (value :: elements)) (text ++ ',' :: more)
  | member {name : RawString} {value : Value} {before nameText after text : List Char}
      (blanksBefore : Blanks before) (units : WrittenUnits name nameText)
      (blanksAfter : Blanks after) (inside : Written (.padded value) text) :
      Written (.member (name, value)) (before ++ '"' :: (nameText ++ '"' :: (after ++ ':' :: text)))
  | lastMember {member : RawString × Value} {text : List Char}
      (last : Written (.member member) text) : Written (.members [member]) text
  | members {member : RawString × Value} {members : List (RawString × Value)}
      {text more : List Char} (first : Written (.member member) text)
      (others : Written (.members members) more) :
      Written (.members (member :: members)) (text ++ ',' :: more)

/-! ## Splitting into tokens -/

/-- A text is split into tokens, in front of anything that ends a value. -/
def SplitsInto (text : List Char) (tokens : List Token) : Prop :=
  ∀ rest, EndsValue rest → tokens? (text ++ rest) = (tokens? rest).map (tokens ++ ·)

namespace SplitsInto

variable {text more : List Char} {tokens others : List Token}

theorem nil : SplitsInto [] [] := by
  intro rest _
  simp

theorem cons {c : Char} {token : Token} (notBlank : isBlank c = false)
    (read : ∀ rest, readToken? c rest = some (token, rest)) (splits : SplitsInto text tokens) :
    SplitsInto (c :: text) (token :: tokens) := by
  intro rest ends
  rw [List.cons_append, tokens?_of_readToken? notBlank (read _), splits rest ends, Option.map_map]
  rfl

/-- What is split goes on behind a character that ends a value. -/
theorem append_cons {c : Char} (first : SplitsInto text tokens) (ends : c ∈ [',', ']', '}'])
    (second : SplitsInto (c :: more) others) :
    SplitsInto (text ++ c :: more) (tokens ++ others) := by
  intro rest endsBehind
  rw [List.append_assoc, List.cons_append, first _ (.cons ends), ← List.cons_append,
    second rest endsBehind, Option.map_map]
  congr 1
  funext further
  exact (List.append_assoc tokens others further).symm

theorem blanks_append {blanks : List Char} (isBlank : Blanks blanks)
    (splits : SplitsInto text tokens) : SplitsInto (blanks ++ text) tokens := by
  intro rest ends
  rw [List.append_assoc, tokens?_blanks_append isBlank, splits rest ends]

theorem append_blanks {blanks : List Char} (splits : SplitsInto text tokens)
    (isBlank : Blanks blanks) : SplitsInto (text ++ blanks) tokens := by
  intro rest ends
  rw [List.append_assoc, splits _ (ends.blanks_append isBlank), tokens?_blanks_append isBlank]

theorem string_append {raw : RawString} {units : List Char} (written : WrittenUnits raw units)
    (splits : SplitsInto text tokens) :
    SplitsInto ('"' :: (units ++ '"' :: text)) (.string raw :: tokens) := by
  intro rest ends
  rw [List.cons_append, List.append_assoc, List.cons_append, tokens?_string_append written,
    splits rest ends, Option.map_map]
  rfl

theorem word {c : Char} {token : Token} (notBlank : isBlank c = false)
    (read : ∀ rest, readToken? c (text ++ rest) = some (token, rest)) :
    SplitsInto (c :: text) [token] := by
  intro rest _
  exact tokens?_of_readToken? notBlank (read rest)

theorem number (isNumber : IsNumber text) : SplitsInto text [.number text] := by
  intro rest ends
  exact tokens?_number_append isNumber ends

end SplitsInto

/-! ## Reading the tokens -/

/-- A reader takes tokens and is where another one is. -/
def Reader.Takes (reader : Reader) (tokens : List Token) (next : Reader) : Prop :=
  tokens.foldlM Reader.step? reader = some next

namespace Reader.Takes

variable {reader middle last : Reader} {token : Token} {tokens others : List Token}

theorem nil : reader.Takes [] reader :=
  rfl

theorem cons (step : reader.step? token = some middle) (takes : middle.Takes tokens last) :
    reader.Takes (token :: tokens) last := by
  rw [Reader.Takes, List.foldlM_cons, step]
  exact takes

theorem append (first : reader.Takes tokens middle) (second : middle.Takes others last) :
    reader.Takes (tokens ++ others) last := by
  rw [Reader.Takes, List.foldlM_append, first]
  exact second

/-- Behind the start of an array a value is read as its first element. -/
theorem needElementOrEnd {stack done : List Frame} {elements : List Value}
    (takes : Reader.Takes (.needValue (.array [] :: stack)) tokens (.afterElement done elements)) :
    Reader.Takes (.needElementOrEnd stack) tokens (.afterElement done elements) := by
  cases tokens with
  | nil => cases takes
  | cons token others =>
      cases token with
      | closeBracket => cases takes
      | _ => exact takes

/-- Behind the start of an object a member is read as its first one. -/
theorem needNameOrEnd {stack done : List Frame} {members : List (RawString × Value)}
    (takes : Reader.Takes (.needName stack []) tokens (.afterMember done members)) :
    Reader.Takes (.needNameOrEnd stack) tokens (.afterMember done members) := by
  cases tokens with
  | nil => cases takes
  | cons token others =>
      cases token with
      | string name => exact takes
      | _ => cases takes

end Reader.Takes

/-- The tokens of a phrase lead a reader that waits for it to where it is read. -/
def Phrase.IsReadFrom (tokens : List Token) : Phrase → Prop
  | .value held | .padded held => ∀ stack,
      Reader.Takes (.needValue stack) tokens (.finish held stack)
  | .elements row => ∀ stack done,
      Reader.Takes (.needValue (.array done :: stack)) tokens
        (.afterElement stack (row.reverse ++ done))
  | .member entry => ∀ stack done,
      Reader.Takes (.needName stack done) tokens (.afterMember stack (entry :: done))
  | .members row => ∀ stack done,
      Reader.Takes (.needName stack done) tokens (.afterMember stack (row.reverse ++ done))

namespace Phrase.IsReadFrom

variable {tokens others : List Token} {held : Value} {row : List Value} {name : RawString}
  {entry : RawString × Value} {entries : List (RawString × Value)}

theorem array (inside : (elements row).IsReadFrom tokens) :
    (value (.array row)).IsReadFrom (.openBracket :: (tokens ++ [.closeBracket])) := by
  intro stack
  refine .cons rfl (.append (.needElementOrEnd (inside stack [])) (.cons ?_ .nil))
  rw [List.append_nil, Reader.step?, List.reverse_reverse]

theorem object (inside : (members entries).IsReadFrom tokens) :
    (value (.object entries)).IsReadFrom (.openBrace :: (tokens ++ [.closeBrace])) := by
  intro stack
  refine .cons rfl (.append (.needNameOrEnd (inside stack [])) (.cons ?_ .nil))
  rw [List.append_nil, Reader.step?, List.reverse_reverse]

theorem lastElement (last : (padded held).IsReadFrom tokens) :
    (elements [held]).IsReadFrom tokens := by
  intro stack done
  exact last (.array done :: stack)

theorem element (first : (padded held).IsReadFrom tokens)
    (behind : (elements row).IsReadFrom others) :
    (elements (held :: row)).IsReadFrom (tokens ++ .comma :: others) := by
  intro stack done
  refine .append (first (.array done :: stack)) (.cons rfl ?_)
  rw [List.reverse_cons, List.append_assoc]
  exact behind stack (held :: done)

theorem member (inside : (padded held).IsReadFrom tokens) :
    (Phrase.member (name, held)).IsReadFrom (.string name :: .colon :: tokens) := by
  intro stack done
  exact .cons rfl (.cons rfl (inside (.member done name :: stack)))

theorem lastMember (last : (Phrase.member entry).IsReadFrom tokens) :
    (Phrase.members [entry]).IsReadFrom tokens := by
  intro stack done
  exact last stack done

theorem members (first : (Phrase.member entry).IsReadFrom tokens)
    (behind : (Phrase.members entries).IsReadFrom others) :
    (Phrase.members (entry :: entries)).IsReadFrom (tokens ++ .comma :: others) := by
  intro stack done
  refine .append (first stack done) (.cons rfl ?_)
  rw [List.reverse_cons, List.append_assoc]
  exact behind stack (entry :: done)

end Phrase.IsReadFrom

/-! ## Texts of the grammar -/

/-- Whatever the grammar derives is split into tokens from which its phrase is read. -/
theorem Written.exists_tokens {phrase : Phrase} {text : List Char}
    (written : Written phrase text) :
    ∃ tokens, SplitsInto text tokens ∧ phrase.IsReadFrom tokens := by
  induction written with
  | null => exact ⟨_, .word rfl fun _ => rfl, fun stack => .cons rfl .nil⟩
  | truth => exact ⟨_, .word rfl fun _ => rfl, fun stack => .cons rfl .nil⟩
  | falsehood => exact ⟨_, .word rfl fun _ => rfl, fun stack => .cons rfl .nil⟩
  | number isNumber => exact ⟨_, .number isNumber, fun stack => .cons rfl .nil⟩
  | string units => exact ⟨_, .string_append units .nil, fun stack => .cons rfl .nil⟩
  | emptyArray isBlank =>
      have close : SplitsInto [']'] [.closeBracket] := .cons rfl (fun _ => rfl) .nil
      have splits := close.blanks_append isBlank
      exact ⟨_, .cons rfl (fun _ => rfl) splits, fun stack => .cons rfl (.cons rfl .nil)⟩
  | array _ inside =>
      obtain ⟨tokens, splits, read⟩ := inside
      have close : SplitsInto [']'] [.closeBracket] := .cons rfl (fun _ => rfl) .nil
      have splitsToEnd := splits.append_cons (by decide) close
      exact ⟨_, .cons rfl (fun _ => rfl) splitsToEnd, read.array⟩
  | emptyObject isBlank =>
      have close : SplitsInto ['}'] [.closeBrace] := .cons rfl (fun _ => rfl) .nil
      have splits := close.blanks_append isBlank
      exact ⟨_, .cons rfl (fun _ => rfl) splits, fun stack => .cons rfl (.cons rfl .nil)⟩
  | object _ inside =>
      obtain ⟨tokens, splits, read⟩ := inside
      have close : SplitsInto ['}'] [.closeBrace] := .cons rfl (fun _ => rfl) .nil
      have splitsToEnd := splits.append_cons (by decide) close
      exact ⟨_, .cons rfl (fun _ => rfl) splitsToEnd, read.object⟩
  | padded blanksBefore _ blanksAfter inside =>
      obtain ⟨tokens, splits, read⟩ := inside
      exact ⟨tokens, .blanks_append blanksBefore (.append_blanks splits blanksAfter), read⟩
  | lastElement _ last =>
      obtain ⟨tokens, splits, read⟩ := last
      exact ⟨tokens, splits, read.lastElement⟩
  | element _ _ first behind =>
      obtain ⟨tokens, splits, read⟩ := first
      obtain ⟨others, splitsBehind, readBehind⟩ := behind
      have comma : SplitsInto (',' :: _) (.comma :: others) :=
        .cons rfl (fun _ => rfl) splitsBehind
      exact ⟨_, splits.append_cons (by decide) comma, read.element readBehind⟩
  | member blanksBefore units blanksAfter _ inside =>
      obtain ⟨tokens, splits, read⟩ := inside
      have colon : SplitsInto (':' :: _) (.colon :: tokens) := .cons rfl (fun _ => rfl) splits
      have behindName := SplitsInto.blanks_append blanksAfter colon
      exact ⟨_, .blanks_append blanksBefore (.string_append units behindName), read.member⟩
  | lastMember _ last =>
      obtain ⟨tokens, splits, read⟩ := last
      exact ⟨tokens, splits, read.lastMember⟩
  | members _ _ first behind =>
      obtain ⟨tokens, splits, read⟩ := first
      obtain ⟨others, splitsBehind, readBehind⟩ := behind
      have comma : SplitsInto (',' :: _) (.comma :: others) :=
        .cons rfl (fun _ => rfl) splitsBehind
      exact ⟨_, splits.append_cons (by decide) comma, read.members readBehind⟩

/-- No blanks need to stand around a value. -/
theorem Written.unpadded {value : Value} {text : List Char}
    (written : Written (.value value) text) : Written (.padded value) text := by
  have padded := Written.padded .nil written .nil
  rwa [List.nil_append, List.append_nil] at padded

/-- A text that is written for a value is read as that value. -/
theorem parse?_of_written {value : Value} {text : String}
    (written : Written (.padded value) text.toList) : parse? text = some value := by
  obtain ⟨tokens, splits, read⟩ := written.exists_tokens
  have whole : tokens? text.toList = some tokens := by
    have split := splits [] (fun c isHead => by cases isHead)
    rwa [List.append_nil, tokens?, Option.map_some, List.append_nil] at split
  have taken : tokens.foldlM Reader.step? (.needValue []) = some (.done value) := read []
  rw [parse?, whole, Option.bind_some, ofTokens?, taken]
  rfl

/-! ## The writer -/

theorem hexDigit_mem_hexDigits (value : Nat) : (hexDigit value, value % 16) ∈ hexDigits := by
  have all : ∀ digit : Fin 16, (hexDigit digit, digit.val) ∈ hexDigits := by decide +kernel
  have same : hexDigit value = hexDigit (value % 16) := by rw [hexDigit, hexDigit, Nat.mod_mod]
  rw [same]
  exact all ⟨value % 16, Nat.mod_lt value (by decide)⟩

/-- A control is written with its code unit. -/
theorem written_control {c : Char} (isControl : c < ' ') :
    (StringUnit.code c.toNat).Written
      ['\\', 'u', '0', '0', hexDigit (c.toNat / 16), hexDigit c.toNat] := by
  have bound : c.toNat < 32 := isControl
  have isZero : ('0', 0) ∈ hexDigits := by decide +kernel
  have written := StringUnit.Written.code isZero isZero (hexDigit_mem_hexDigits (c.toNat / 16))
    (hexDigit_mem_hexDigits c.toNat)
  have value : ((0 * 16 + 0) * 16 + c.toNat / 16 % 16) * 16 + c.toNat % 16 = c.toNat := by omega
  rwa [value] at written

/-- A character is written as an element that spells it. -/
theorem exists_written_writeChar (c : Char) :
    ∃ unit : StringUnit, unit.Written (writeChar c) ∧ RawString.Spells [unit] [c] := by
  have short {mark : Char} (escape : (mark, c) ∈ shortEscapes) :
      ∃ unit : StringUnit, unit.Written ['\\', mark] ∧ RawString.Spells [unit] [c] :=
    ⟨.char c, .short escape, .char .nil⟩
  rw [writeChar]
  split_ifs with quote backslash backspace tab newline feed carriage control
  · exact short (by simp [shortEscapes, quote])
  · exact short (by simp [shortEscapes, backslash])
  · exact short (by simp [shortEscapes, backspace])
  · exact short (by simp [shortEscapes, tab])
  · exact short (by simp [shortEscapes, newline])
  · exact short (by simp [shortEscapes, feed])
  · exact short (by simp [shortEscapes, carriage])
  · have bound : c.toNat < 32 := control
    exact ⟨.code c.toNat, written_control control, .unit (by omega) .nil⟩
  · exact ⟨.char c, .plain quote backslash (Char.not_lt.mp control), .char .nil⟩

theorem RawString.Spells.append {raw more : RawString} {text others : List Char}
    (spells : raw.Spells text) (spellsBehind : more.Spells others) :
    RawString.Spells (raw ++ more) (text ++ others) := by
  induction spells with
  | nil => exact spellsBehind
  | char _ ih => exact .char ih
  | unit isUnit _ ih => exact .unit isUnit ih
  | pair isPair _ ih => exact .pair isPair ih

/-- A text is written between quotes as elements that spell it. -/
theorem exists_writtenUnits (text : List Char) :
    ∃ raw : RawString, WrittenUnits raw (text.flatMap writeChar) ∧ raw.Spells text := by
  induction text with
  | nil => exact ⟨[], .nil, .nil⟩
  | cons c others ih =>
      obtain ⟨unit, isWritten, spellsChar⟩ := exists_written_writeChar c
      obtain ⟨raw, areWritten, spells⟩ := ih
      exact ⟨unit :: raw, .cons isWritten areWritten, spellsChar.append spells⟩

/-- A member with a string is written as the grammar has it. -/
theorem exists_written_writeMember (name value : String) :
    ∃ rawName rawValue : RawString, rawName.Spells name.toList ∧ rawValue.Spells value.toList ∧
      Written (.member (rawName, .string rawValue)) (writeMember name value) := by
  obtain ⟨rawName, nameWritten, spellsName⟩ := exists_writtenUnits name.toList
  obtain ⟨rawValue, valueWritten, spellsValue⟩ := exists_writtenUnits value.toList
  have written := Written.member .nil nameWritten .nil (Written.string valueWritten).unpadded
  refine ⟨rawName, rawValue, spellsName, spellsValue, ?_⟩
  simpa [writeMember, writeString] using written

end ScriptView.Json
