import ScriptView.Mapping.Json
import ScriptView.Proofs.Json.Value

/-!
# The JSON forms of a mapping

A mapping can be written as an object in many ways. The order of the members is free, a
member whose value is the default may be left out, other members may stand between, and
the grammar of JSON leaves open the blanks between tokens and the escapes in strings. All
of these forms are read alike, and what is written is one of them (`Mapping.ofJson_forms`).

That holds of every library for JSON that keeps to what is asked of it here: of its reader
(`ReadsObjects`), of what it builds mappings with (`BuildsMappings`) and of its writer
(`WritesMappings`). What stands in `Mapping.ofJson` and `Mapping.toJson` does.
-/

namespace ScriptView.Mapping

open Json

/-! ## Forms -/

/-- The two extensions of a mapping. -/
inductive Extension where
  | component
  | script

/-- The name of the members that give an extension. -/
def Extension.name : Extension → String
  | component => componentName
  | script => scriptName

/-- The text of an extension. -/
def extension (mapping : Mapping) : Extension → String
  | .component => mapping.component
  | .script => mapping.script

/-- A mapping with another text for one of its extensions. -/
def withExtension (mapping : Mapping) (which : Extension) (text : String) : Mapping :=
  match which with
  | .component => { mapping with component := text }
  | .script => { mapping with script := text }

/-- A member with the name of an extension whose value is a string that spells its text. -/
def Gives (which : Extension) (text : String) (member : RawString × Value) : Prop :=
  member.1.Spells which.name.toList ∧
    ∃ raw : RawString, member.2 = .string raw ∧ raw.Spells text.toList

/-- A member with a name, but not the one of an extension. -/
def IsApart (which : Extension) (member : RawString × Value) : Prop :=
  ∃ name : String, member.1.Spells name.toList ∧ name ≠ which.name

/-- A member with a name that is not that of an extension, and any value. -/
def IsOther (member : RawString × Value) : Prop :=
  ∃ name : String, member.1.Spells name.toList ∧ ∀ which : Extension, name ≠ which.name

/-- The members that give an extension: one that does, or none if the text is the
default. -/
inductive Given (which : Extension) (text : String) : List (RawString × Value) → Prop where
  | present {member : RawString × Value} (gives : Gives which text member) :
      Given which text [member]
  | absent (isDefault : text = standard.extension which) : Given which text []

/-- Members that give the two extensions of a mapping, with others among them, in any
order. -/
def DescribedBy (mapping : Mapping) (members : List (RawString × Value)) : Prop :=
  ∃ component script others, members.Perm (component ++ (script ++ others)) ∧
    Given .component mapping.component component ∧ Given .script mapping.script script ∧
    ∀ member ∈ others, IsOther member

/-- A text that is written for an object whose members describe a mapping. -/
def IsForm (mapping : Mapping) (text : String) : Prop :=
  ∃ members, Written (.padded (.object members)) text.toList ∧ mapping.DescribedBy members

/-! ## What is asked of a library -/

/-- The reader reads every text that the grammar derives for an object as that object. -/
def ReadsObjects (read : String → Option Value) : Prop :=
  ∀ (members : List (RawString × Value)) (text : String),
    Written (.padded (.object members)) text.toList → read text = some (.object members)

/-- Mappings are built from objects member by member, wherever a member stands: those with
the name of an extension are taken and all others passed over. -/
structure BuildsMappings (build : Value → Option Mapping) : Prop where
  /-- Where no member gives an extension, both have their defaults. -/
  empty : build (.object []) = some standard
  /-- A member that is not that of an extension makes no difference. -/
  passesOver (front back : List (RawString × Value)) {member : RawString × Value} :
    IsOther member → build (.object (front ++ member :: back)) = build (.object (front ++ back))
  /-- A member that gives an extension sets it, if no other member has its name. -/
  takes (front back : List (RawString × Value)) {member : RawString × Value}
    {which : Extension} {text : String} {mapping : Mapping} :
    Gives which text member → (∀ other ∈ front ++ back, IsApart which other) →
      build (.object (front ++ back)) = some mapping →
      build (.object (front ++ member :: back)) = some (mapping.withExtension which text)

/-- The writer writes an object with one member for each extension. -/
def WritesMappings (write : Mapping → String) : Prop :=
  ∀ mapping : Mapping, ∃ component script,
    Gives .component mapping.component component ∧ Gives .script mapping.script script ∧
      Written (.padded (.object [component, script])) (write mapping).toList

/-! ## Reading the members -/

section Members

variable {build : Value → Option Mapping} {mapping before : Mapping} {which : Extension}
  {text : String} {own rest others members : List (RawString × Value)}

theorem IsOther.isApart {member : RawString × Value} (isOther : IsOther member)
    (which : Extension) : IsApart which member := by
  obtain ⟨name, spells, differs⟩ := isOther
  exact ⟨name, spells, differs which⟩

theorem Given.isApart (given : Given which text own) {key : Extension}
    (differs : which.name ≠ key.name) : ∀ member ∈ own, IsApart key member := by
  cases given with
  | present gives => exact List.forall_mem_singleton.mpr ⟨which.name, gives.1, differs⟩
  | absent _ =>
      intro member isMember
      cases isMember

/-- Setting an extension to the text that it has changes nothing. -/
theorem withExtension_extension (mapping : Mapping) (which : Extension) :
    mapping.withExtension which (mapping.extension which) = mapping := by
  cases which <;> rfl

/-- The place of one entry in another order of a row. -/
theorem exists_split_of_perm {entry : RawString × Value} (perm : members.Perm (entry :: rest)) :
    ∃ front back, members = front ++ entry :: back ∧ (front ++ back).Perm rest := by
  obtain ⟨front, back, split⟩ := List.append_of_mem (perm.mem_iff.mpr List.mem_cons_self)
  refine ⟨front, back, split, ?_⟩
  have moved : (entry :: (front ++ back)).Perm (entry :: rest) := by
    rw [split] at perm
    exact List.perm_middle.symm.trans perm
  exact moved.cons_inv

/-- Objects without members for extensions give the defaults. -/
theorem BuildsMappings.of_others (builds : BuildsMappings build)
    (areOther : ∀ member ∈ members, IsOther member) : build (.object members) = some standard := by
  induction members with
  | nil => exact builds.empty
  | cons member others ih =>
      obtain ⟨isOther, areOtherBehind⟩ := List.forall_mem_cons.mp areOther
      exact (builds.passesOver [] others isOther).trans (ih areOtherBehind)

/-- An extension is set by the members that give it, wherever they stand, if the rest gives
its default. -/
theorem BuildsMappings.of_given (builds : BuildsMappings build) (given : Given which text own)
    (apart : ∀ other ∈ rest, IsApart which other)
    (isBuilt : ∀ others, others.Perm rest → build (.object others) = some before)
    (isDefault : before.extension which = standard.extension which)
    (perm : members.Perm (own ++ rest)) :
    build (.object members) = some (before.withExtension which text) := by
  cases given with
  | present gives =>
      obtain ⟨front, back, rfl, permRest⟩ := exists_split_of_perm perm
      have apartRest : ∀ other ∈ front ++ back, IsApart which other :=
        fun other isMember => apart other (permRest.mem_iff.mp isMember)
      exact builds.takes front back gives apartRest (isBuilt _ permRest)
  | absent same =>
      rw [same, ← isDefault, withExtension_extension]
      exact isBuilt members perm

/-- Members that describe a mapping give it. -/
theorem BuildsMappings.of_describedBy (builds : BuildsMappings build)
    (described : mapping.DescribedBy members) : build (.object members) = some mapping := by
  obtain ⟨component, script, others, perm, givenComponent, givenScript, areOther⟩ := described
  have apart (which : Extension) : ∀ member ∈ others, IsApart which member :=
    fun member isMember => (areOther member isMember).isApart which
  have withOthers : ∀ members : List (RawString × Value), members.Perm others →
      build (.object members) = some standard := by
    intro members permOthers
    exact builds.of_others fun member isMember =>
      areOther member (permOthers.mem_iff.mp isMember)
  have withScript : ∀ members : List (RawString × Value), members.Perm (script ++ others) →
      build (.object members) = some (standard.withExtension .script mapping.script) :=
    fun members permScript => builds.of_given givenScript (apart .script) withOthers rfl permScript
  have apartScript : ∀ member ∈ script ++ others, IsApart .component member :=
    List.forall_mem_append.mpr ⟨givenScript.isApart (by decide), apart .component⟩
  calc build (.object members)
      = some ((standard.withExtension .script mapping.script).withExtension .component
          mapping.component) := builds.of_given givenComponent apartScript withScript rfl perm
    _ = some mapping := rfl

end Members

/-! ## The library that is in use -/

theorem readsObjects_parse? : ReadsObjects parse? :=
  fun _ _ written => parse?_of_written written

namespace Draft

/-- What was met of an extension, behind one more member. -/
def meet? (which : Extension) (met : Option String) (member : RawString × Value) :
    Option (Option String) :=
  member.1.decode?.bind fun found => if found = which.name then set? met member.2 else some met

variable {which : Extension} {met : Option String} {member : RawString × Value}
  {front back members : List (RawString × Value)} {text : String}

theorem meet?_of_eq (which : Extension) (named : member.1.decode? = some which.name) :
    meet? which met member = set? met member.2 := by
  rw [meet?, named, Option.bind_some, if_pos rfl]

theorem meet?_of_ne (which : Extension) {found : String} (named : member.1.decode? = some found)
    (differs : found ≠ which.name) : meet? which met member = some met := by
  rw [meet?, named, Option.bind_some, if_neg differs]

theorem meet?_nameless (nameless : member.1.decode? = none) :
    meet? which met member = none := by
  rw [meet?, nameless, Option.bind_none]

theorem meet?_of_isApart (apart : IsApart which member) : meet? which met member = some met := by
  obtain ⟨found, spells, differs⟩ := apart
  exact meet?_of_ne which (decode?_of_spells spells) differs

/-- A member is taken in for each of the two extensions on its own. -/
theorem addMember?_eq (draft : Draft) (member : RawString × Value) :
    draft.addMember? member =
      (meet? .component draft.component? member).bind fun component? =>
        (meet? .script draft.script? member).map fun script? => { component?, script? } := by
  cases named : member.1.decode? with
  | none =>
      rw [addMember?, named, meet?_nameless named]
      rfl
  | some found =>
      rw [addMember?, named, Option.bind_eq_bind, Option.bind_some]
      by_cases isComponent : found = componentName
      · subst isComponent
        rw [if_pos rfl, meet?_of_eq .component named, meet?_of_ne .script named (by decide)]
        cases set? draft.component? member.2 <;> rfl
      · rw [if_neg isComponent, meet?_of_ne .component named isComponent, Option.bind_some]
        by_cases isScript : found = scriptName
        · subst isScript
          rw [if_pos rfl, meet?_of_eq .script named]
          cases set? draft.script? member.2 <;> rfl
        · rw [if_neg isScript, meet?_of_ne .script named isScript]
          rfl

theorem foldlM_addMember?_eq (members : List (RawString × Value)) (draft : Draft) :
    members.foldlM addMember? draft =
      (members.foldlM (meet? .component) draft.component?).bind fun component? =>
        (members.foldlM (meet? .script) draft.script?).map fun script? =>
          { component?, script? } := by
  induction members generalizing draft with
  | nil => rfl
  | cons member others ih =>
      simp only [List.foldlM_cons, Option.bind_eq_bind, addMember?_eq, ih]
      cases meet? .component draft.component? member with
      | none => rfl
      | some component? =>
          cases meet? .script draft.script? member with
          | none => simp
          | some script? => rfl

/-- Members with other names change nothing. -/
theorem foldlM_meet?_of_isApart (apart : ∀ member ∈ members, IsApart which member)
    (met : Option String) : members.foldlM (meet? which) met = some met := by
  induction members with
  | nil => rfl
  | cons member others ih =>
      obtain ⟨isApart, apartBehind⟩ := List.forall_mem_cons.mp apart
      rw [List.foldlM_cons, meet?_of_isApart isApart]
      exact ih apartBehind

/-- A member with another name may be left out. -/
theorem foldlM_meet?_passOver (apart : IsApart which member) (met : Option String) :
    (front ++ member :: back).foldlM (meet? which) met =
      (front ++ back).foldlM (meet? which) met := by
  simp [List.foldlM_cons, meet?_of_isApart apart]

/-- What is met among members with other names is the text of the one that gives it. -/
theorem foldlM_meet?_of_gives (gives : Gives which text member)
    (apart : ∀ other ∈ front ++ back, IsApart which other) :
    (front ++ member :: back).foldlM (meet? which) none = some (some text) := by
  obtain ⟨apartFront, apartBack⟩ := List.forall_mem_append.mp apart
  obtain ⟨spellsName, raw, isString, spellsText⟩ := gives
  have isMet : meet? which none member = some (some text) := by
    rw [meet?_of_eq which (decode?_of_spells spellsName), isString, set?, decode?_of_spells spellsText]
    rfl
  rw [List.foldlM_append, foldlM_meet?_of_isApart apartFront, Option.bind_eq_bind,
    Option.bind_some, List.foldlM_cons, isMet]
  exact foldlM_meet?_of_isApart apartBack (some text)

end Draft

theorem ofValue?_object (members : List (RawString × Value)) :
    ofValue? (.object members) =
      (members.foldlM (Draft.meet? .component) none).bind fun component? =>
        (members.foldlM (Draft.meet? .script) none).map fun script? =>
          Draft.complete { component?, script? } := by
  rw [ofValue?, Draft.foldlM_addMember?_eq]
  cases members.foldlM (Draft.meet? .component) none with
  | none => rfl
  | some component? => cases members.foldlM (Draft.meet? .script) none <;> rfl

theorem buildsMappings_ofValue? : BuildsMappings ofValue? where
  empty := rfl
  passesOver := by
    intro front back member isOther
    rw [ofValue?_object, ofValue?_object, Draft.foldlM_meet?_passOver (isOther.isApart .component),
      Draft.foldlM_meet?_passOver (isOther.isApart .script)]
  takes := by
    intro front back member which text mapping gives apart isBuilt
    rw [ofValue?_object] at isBuilt ⊢
    cases which with
    | component =>
        have apartScript : IsApart .script member := ⟨componentName, gives.1, by decide⟩
        rw [Draft.foldlM_meet?_of_isApart apart, Option.bind_some] at isBuilt
        obtain ⟨script?, isMet, rfl⟩ := Option.map_eq_some_iff.mp isBuilt
        rw [Draft.foldlM_meet?_of_gives gives apart, Draft.foldlM_meet?_passOver apartScript, isMet]
        rfl
    | script =>
        have apartComponent : IsApart .component member := ⟨scriptName, gives.1, by decide⟩
        rw [Draft.foldlM_meet?_of_isApart apart] at isBuilt
        obtain ⟨component?, isMet, built⟩ := Option.bind_eq_some_iff.mp isBuilt
        cases built
        rw [Draft.foldlM_meet?_of_gives gives apart, Draft.foldlM_meet?_passOver apartComponent,
          isMet]
        rfl

theorem writesMappings_toJson : WritesMappings toJson := by
  intro mapping
  obtain ⟨componentKey, component, spellsComponentKey, spellsComponent, writtenComponent⟩ :=
    exists_written_writeMember componentName mapping.component
  obtain ⟨scriptKey, script, spellsScriptKey, spellsScript, writtenScript⟩ :=
    exists_written_writeMember scriptName mapping.script
  refine ⟨(componentKey, .string component), (scriptKey, .string script),
    ⟨spellsComponentKey, component, rfl, spellsComponent⟩,
    ⟨spellsScriptKey, script, rfl, spellsScript⟩, ?_⟩
  have written := (writtenComponent.members writtenScript.lastMember).object.unpadded
  rw [toJson, String.toList_ofList]
  simpa using written

/-! ## What is written is read -/

/-- What a mapping is written as is a form of it, and every form of it is read as the
mapping itself if it has no flaw, and otherwise refused with its flaw. -/
theorem ofJson_forms {read : String → Option Value} {build : Value → Option Mapping}
    {write : Mapping → String} (reads : ReadsObjects read) (builds : BuildsMappings build)
    (writes : WritesMappings write) (mapping : Mapping) :
    mapping.IsForm (write mapping) ∧
      ∀ text, mapping.IsForm text →
        ofJsonWith read build text =
          match mapping.flaw? with
          | none => .ok mapping
          | some flaw => .error (.invalidConfig flaw) := by
  constructor
  · obtain ⟨component, script, givesComponent, givesScript, written⟩ := writes mapping
    exact ⟨_, written, _, _, [], .refl _, .present givesComponent, .present givesScript,
      fun member isMember => by cases isMember⟩
  · intro text isForm
    obtain ⟨members, written, described⟩ := isForm
    rw [ofJsonWith, reads members text written, Option.bind_some, builds.of_describedBy described]
    dsimp only
    rw [validated]
    cases mapping.flaw? <;> rfl

/-- A form without the component's extension. Its first member is of no concern, but it
holds another one with the name of that extension. -/
def looseForm : String :=
  "\n\x7b \"\\u0078\" : [\x7b\"componentExtension\":0\x7d] ," ++
    "\"scriptExtension\":\".\\u0001\\uD83D\\ude00\"\t\x7d"

theorem isForm_looseForm : IsForm { script := ".\x01😀" } looseForm := by
  have space : Blanks [' '] := .cons rfl .nil
  have tab : Blanks ['\t'] := .cons rfl .nil
  have lineFeed : Blanks ['\n'] := .cons rfl .nil
  obtain ⟨innerKey, innerKeyWritten, -⟩ := exists_writtenUnits componentName.toList
  obtain ⟨key, keyWritten, spellsKey⟩ := exists_writtenUnits scriptName.toList
  -- The member that is of no concern.
  have zero : IsNumber ([] ++ (['0'] ++ ([] ++ []))) := .parts (by decide) .zero .missing .missing
  have inner := Written.member .nil innerKeyWritten .nil (Written.number zero).unpadded
  have array := inner.lastMember.object.unpadded.lastElement.array
  have letter : (StringUnit.code (((0 * 16 + 0) * 16 + 7) * 16 + 8)).Written
      ['\\', 'u', '0', '0', '7', '8'] :=
    .code (by decide +kernel) (by decide +kernel) (by decide +kernel) (by decide +kernel)
  have other := Written.member space (.cons letter .nil) space (.padded space array space)
  have spellsLetter : RawString.Spells [.code 0x78] "x".toList := .unit (c := 'x') (by decide) .nil
  -- The member with the script's extension.
  have control : (StringUnit.code (((0 * 16 + 0) * 16 + 0) * 16 + 1)).Written
      ['\\', 'u', '0', '0', '0', '1'] :=
    .code (by decide +kernel) (by decide +kernel) (by decide +kernel) (by decide +kernel)
  have high : (StringUnit.code (((13 * 16 + 8) * 16 + 3) * 16 + 13)).Written
      ['\\', 'u', 'D', '8', '3', 'D'] :=
    .code (by decide +kernel) (by decide +kernel) (by decide +kernel) (by decide +kernel)
  have low : (StringUnit.code (((13 * 16 + 14) * 16 + 0) * 16 + 0)).Written
      ['\\', 'u', 'd', 'e', '0', '0'] :=
    .code (by decide +kernel) (by decide +kernel) (by decide +kernel) (by decide +kernel)
  have dot : (StringUnit.char '.').Written ['.'] := .plain (by decide) (by decide) (by decide)
  have units := WrittenUnits.cons dot (.cons control (.cons high (.cons low .nil)))
  have script := Written.member .nil keyWritten .nil (.padded .nil (.string units) tab)
  have spellsScript : RawString.Spells [.char '.', .code 0x1, .code 0xD83D, .code 0xDE00]
      ".\x01😀".toList :=
    .char (.unit (c := '\x01') (by decide) (.pair (c := '😀') (by decide) .nil))
  refine ⟨[([.code 0x78], .array [.object [(innerKey, .number ['0'])]]),
    (key, .string [.char '.', .code 0x1, .code 0xD83D, .code 0xDE00])], ?_, ?_⟩
  · convert Written.padded lineFeed (other.members script.lastMember).object .nil using 1
    · rfl
    · decide +kernel
  · refine ⟨[], _, _, .swap _ _ [], .absent rfl, .present ⟨spellsKey, _, rfl, spellsScript⟩, ?_⟩
    refine List.forall_mem_singleton.mpr ⟨"x", spellsLetter, fun which => ?_⟩
    cases which <;> decide

theorem ofJson_forms_loose :
    ReadsObjects parse? ∧ BuildsMappings ofValue? ∧ WritesMappings toJson ∧
      IsForm { script := ".\x01😀" } looseForm ∧
      ofJson looseForm = .ok { script := ".\x01😀" } :=
  ⟨readsObjects_parse?, buildsMappings_ofValue?, writesMappings_toJson, isForm_looseForm,
    (ofJson_forms readsObjects_parse? buildsMappings_ofValue? writesMappings_toJson
      { script := ".\x01😀" }).2 looseForm isForm_looseForm⟩

end ScriptView.Mapping
