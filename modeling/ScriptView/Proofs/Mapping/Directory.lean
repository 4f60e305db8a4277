import ScriptView.Proofs.Location
import ScriptView.Proofs.Mapping

/-!
# Directories of translated paths

A mapping works on the text of a path, and where the path leads is found out afterwards.
The two can change places as long as both paths end with the name of an entry: an
extension has no separators, so that translation changes the last segment alone, and
both names belong to one directory. Two dots are an extension with nothing wrong about
it. With them for the component's extension a path of a component may lead up, away from
the directory that its script is in.
-/

namespace ScriptView

open Text

namespace Location

/-- Text without separators that is written behind a path belongs to its last segment. -/
theorem exists_segments_append (path : List Char) :
    ∃ (front : List (List Char)) (last : List Char),
      ∀ tail : List Char, (∀ c ∈ tail, isSeparator c = false) →
        segments (path ++ tail) = front ++ [last ++ tail] := by
  induction path with
  | nil =>
      refine ⟨[], [], ?_⟩
      intro tail plain
      exact segments_of_plain plain
  | cons c rest ih =>
      cases ih with
      | intro front ih =>
        cases ih with
        | intro last behind =>
          cases separates : isSeparator c with
          | true =>
              refine ⟨[] :: front, last, ?_⟩
              intro tail plain
              simp only [List.cons_append, segments, separates, if_true, behind tail plain]
          | false =>
              cases front with
              | nil =>
                  refine ⟨[], c :: last, ?_⟩
                  intro tail plain
                  simp [segments, separates, behind tail plain]
              | cons first others =>
                  refine ⟨(c :: first) :: others, last, ?_⟩
                  intro tail plain
                  simp [segments, separates, behind tail plain]

/-- A path with text behind it that has no separators leads to what the last segment, with
this text behind it, leads to from one directory. -/
theorem exists_resolve_append (current : Location) (path : String) :
    ∃ (directory : Location) (last : List Char), (∀ c ∈ last, isSeparator c = false) ∧
      ∀ tail : String, (∀ c ∈ tail.toList, isSeparator c = false) →
        (segments (path ++ tail).toList).getLast? = some (last ++ tail.toList) ∧
          current.resolve (path ++ tail) = directory.enter (last ++ tail.toList) := by
  obtain ⟨front, last, behind⟩ := exists_segments_append path.toList
  let start := if path.toList.head?.any isSeparator then root else current
  refine ⟨front.foldl enter start, last, ?_, ?_⟩
  · have alone := behind [] (by simp)
    rw [List.append_nil, List.append_nil] at alone
    have member : last ∈ segments path.toList := by simp [alone]
    exact isSeparator_of_mem_segments member
  · intro tail plain
    have split := behind tail.toList plain
    rw [← String.toList_append] at split
    have sameStart : (path ++ tail).toList.head?.any isSeparator =
        path.toList.head?.any isSeparator := by
      rw [String.toList_append]
      cases chars : path.toList with
      | cons c rest => rfl
      | nil =>
          cases tailChars : tail.toList with
          | nil => rfl
          | cons c rest =>
              have plainHere : isSeparator c = false := plain c (by simp [tailChars])
              simp [plainHere]
    constructor
    · rw [split, List.getLast?_concat]
    · rw [resolve, sameStart, split, List.foldl_append]
      rfl

theorem text_concat (directory : Location) (name : Name) :
    text (directory ++ [name]) = directory.belowText ++ name.text := by
  have whole := text_append directory (List.cons_ne_nil name [])
  simpa using whole

/-- No place is written with two dots for its last segment. -/
theorem text_ne_belowText_append_up (location directory : Location) :
    location.text ≠ directory.belowText ++ ".." := by
  intro written
  have chars : location.text.toList =
      (directory.flatMap fun name => '/' :: name.text.toList) ++ '/' :: ['.', '.'] := by
    rw [written, String.toList_append, toList_belowText, List.append_assoc]
    rfl
  have split := @segments_names_append [] (by simp) directory ['.', '.']
  rw [List.nil_append, ← chars] at split
  have notRoot : location.text ≠ "/" := by
    intro isRoot
    have lengths := congrArg List.length chars
    rw [isRoot] at lengths
    simp at lengths
  have noUp := (isCanonical_text location).segments notRoot ['.', '.']
  rw [split, List.cons_append, List.tail_cons] at noUp
  exact (noUp (List.mem_append_right _ List.mem_cons_self)).2.2 rfl

end Location

namespace Mapping

variable {mapping : Mapping} {extension : String}

/-! ## Extensions -/

/-- A sound extension is a dot with more behind it and no separator. -/
theorem extensionFlaw?_eq_none_iff :
    extensionFlaw? extension = none ↔
      (∃ c rest, extension.toList = '.' :: c :: rest) ∧
        ∀ c ∈ extension.toList, isSeparator c = false := by
  rw [extensionFlaw?]
  split
  · next c rest chars =>
    have dotted : ∃ c rest, extension.toList = '.' :: c :: rest := ⟨c, rest, chars⟩
    rw [chars] at dotted ⊢
    simp only [ite_eq_right_iff, reduceCtorEq, imp_false, Bool.not_eq_true, List.any_eq_false]
    exact (and_iff_right dotted).symm
  · next undotted =>
    constructor
    · intro none
      cases none
    · intro sound
      obtain ⟨⟨c, rest, chars⟩, -⟩ := sound
      exact absurd chars (undotted c rest)

theorem flaw?_eq_none_iff :
    mapping.flaw? = none ↔
      extensionFlaw? mapping.component = none ∧ extensionFlaw? mapping.script = none := by
  rw [flaw?]
  cases extensionFlaw? mapping.component <;> simp

/-- What ends with a sound extension is a name, apart from two dots. -/
theorem isName_append_iff (sound : extensionFlaw? extension = none) {front : List Char}
    (plain : ∀ c ∈ front, isSeparator c = false) :
    IsName (String.ofList (front ++ extension.toList)) ↔
      front ++ extension.toList ≠ ['.', '.'] := by
  obtain ⟨⟨c, rest, chars⟩, extensionPlain⟩ := extensionFlaw?_eq_none_iff.mp sound
  constructor
  · intro isName up
    rw [up] at isName
    exact isName.2.2.1 rfl
  · intro notUp
    have long : 2 ≤ (front ++ extension.toList).length := by
      rw [chars, List.length_append]
      simp only [List.length_cons]
      omega
    have spelt {word : String} (same : String.ofList (front ++ extension.toList) = word) :
        front ++ extension.toList = word.toList := by
      rw [← same, String.toList_ofList]
    refine ⟨?_, ?_, ?_, ?_⟩
    · intro empty
      rw [spelt empty] at long
      contradiction
    · intro dot
      rw [spelt dot] at long
      contradiction
    · intro dots
      exact notUp (spelt dots)
    · rw [String.toList_ofList]
      exact List.forall_mem_append.mpr ⟨plain, extensionPlain⟩

/-- From a directory, what ends with a sound extension leads to an entry with that name. -/
theorem exists_enter (sound : extensionFlaw? extension = none) {front : List Char}
    (plain : ∀ c ∈ front, isSeparator c = false) (notUp : front ++ extension.toList ≠ ['.', '.'])
    (directory : Location) :
    ∃ entry : Name, entry.text = String.ofList (front ++ extension.toList) ∧
      directory.enter (front ++ extension.toList) = directory ++ [entry] := by
  have isName := (isName_append_iff sound plain).mpr notUp
  refine ⟨⟨_, isName⟩, rfl, ?_⟩
  have entered := Location.enter_name directory ⟨_, isName⟩
  rwa [String.toList_ofList] at entered

/-! ## Both paths of a component -/

/-- The last segment of a path leads up. -/
def LeadsUp (path : String) : Prop :=
  (Location.segments path.toList).getLast? = some ['.', '.']

instance (path : String) : Decidable (LeadsUp path) :=
  inferInstanceAs (Decidable (_ = _))

/-- Where the path of a component and that of its script lead. The script is in a
directory, under the last segment of the component's path and the script's extension. The
component is there as well, unless this segment leads up from there. -/
structure Entries (mapping : Mapping) (current : Location) (path : String)
    (directory : Location) (name : String) : Prop where
  ends : endsWith name mapping.component = true
  script : ∃ entry : Name, entry.text = name ++ mapping.script ∧
    current.resolve (path ++ mapping.script) = directory ++ [entry]
  component : ¬LeadsUp path → ∃ entry : Name, entry.text = name ∧
    current.resolve path = directory ++ [entry]
  above : LeadsUp path → name = ".." ∧ current.resolve path = directory.dropLast

theorem exists_entries (sound : mapping.flaw? = none) (current : Location) {path : String}
    (ends : endsWith path mapping.component = true) :
    ∃ directory name, mapping.Entries current path directory name := by
  obtain ⟨soundComponent, soundScript⟩ := flaw?_eq_none_iff.mp sound
  have plainComponent := (extensionFlaw?_eq_none_iff.mp soundComponent).2
  have plainScript := (extensionFlaw?_eq_none_iff.mp soundScript).2
  obtain ⟨front, rfl⟩ := endsWith_iff.mp ends
  obtain ⟨directory, last, plainLast, leads⟩ := Location.exists_resolve_append current front
  have plainBoth : ∀ c ∈ (mapping.component ++ mapping.script).toList, isSeparator c = false := by
    rw [String.toList_append]
    exact List.forall_mem_append.mpr ⟨plainComponent, plainScript⟩
  have plainFront : ∀ c ∈ last ++ mapping.component.toList, isSeparator c = false :=
    List.forall_mem_append.mpr ⟨plainLast, plainComponent⟩
  obtain ⟨lastSegment, leadsComponent⟩ := leads mapping.component plainComponent
  have leadsScript := (leads _ plainBoth).2
  have leadsUp_iff : LeadsUp (front ++ mapping.component) ↔
      last ++ mapping.component.toList = ['.', '.'] := by
    rw [LeadsUp, lastSegment, Option.some.injEq]
  refine ⟨directory, String.ofList (last ++ mapping.component.toList), ?_, ?_, ?_, ?_⟩
  · rw [endsWith_iff_suffix, String.toList_ofList]
    exact List.suffix_append _ _
  · have notUp : last ++ mapping.component.toList ++ mapping.script.toList ≠ ['.', '.'] := by
      obtain ⟨⟨c, rest, chars⟩, -⟩ := extensionFlaw?_eq_none_iff.mp soundComponent
      obtain ⟨⟨d, others, scriptChars⟩, -⟩ := extensionFlaw?_eq_none_iff.mp soundScript
      intro up
      have lengths := congrArg List.length up
      rw [chars, scriptChars, List.length_append, List.length_append] at lengths
      simp only [List.length_cons, List.length_nil] at lengths
      omega
    obtain ⟨entry, text, entered⟩ := exists_enter soundScript plainFront notUp directory
    refine ⟨entry, ?_, ?_⟩
    · rw [text, String.ofList_append, String.ofList_toList]
    · rw [String.append_assoc, leadsScript, String.toList_append, ← List.append_assoc, entered]
  · intro notUp
    rw [leadsUp_iff] at notUp
    rw [leadsComponent]
    exact exists_enter soundComponent plainLast notUp directory
  · intro up
    rw [leadsUp_iff] at up
    rw [leadsComponent, up]
    exact ⟨rfl, rfl⟩

namespace Entries

variable {current directory : Location} {path name : String}
  (entries : mapping.Entries current path directory name)

include entries

theorem text_script :
    (current.resolve (path ++ mapping.script)).text =
      (directory.belowText ++ name) ++ mapping.script := by
  obtain ⟨entry, text, leads⟩ := entries.script
  rw [leads, Location.text_concat, text, String.append_assoc]

theorem endsWith_belowText_append :
    endsWith (directory.belowText ++ name) mapping.component = true := by
  obtain ⟨front, written⟩ := endsWith_iff.mp entries.ends
  rw [endsWith_iff]
  exact ⟨directory.belowText ++ front, by rw [written, String.append_assoc]⟩

theorem isVirtual_script :
    mapping.isVirtual (current.resolve (path ++ mapping.script)).text = true := by
  rw [entries.text_script]
  exact isVirtual_append_script entries.endsWith_belowText_append

theorem toComponent_script :
    mapping.toComponent (current.resolve (path ++ mapping.script)).text =
      directory.belowText ++ name := by
  rw [entries.text_script]
  exact toComponent_append_script entries.endsWith_belowText_append

theorem parent?_script :
    (current.resolve (path ++ mapping.script)).parent? = some directory := by
  obtain ⟨entry, -, leads⟩ := entries.script
  exact Location.parent?_eq_some.mpr ⟨entry, leads⟩

/-- The component is where its path is written to be exactly if the path does not lead
up. -/
theorem text_component_iff :
    (current.resolve path).text = directory.belowText ++ name ↔ ¬LeadsUp path := by
  constructor
  · intro written up
    rw [(entries.above up).1] at written
    exact Location.text_ne_belowText_append_up _ _ written
  · intro notUp
    obtain ⟨entry, text, leads⟩ := entries.component notUp
    rw [leads, Location.text_concat, text]

theorem parent?_component_iff :
    (current.resolve path).parent? = some directory ↔ ¬LeadsUp path := by
  constructor
  · intro isParent up
    obtain ⟨entry, leads⟩ := Location.parent?_eq_some.mp isParent
    rw [(entries.above up).2] at leads
    have lengths := congrArg List.length leads
    rw [List.length_dropLast, List.length_append, List.length_singleton] at lengths
    omega
  · intro notUp
    obtain ⟨entry, -, leads⟩ := entries.component notUp
    exact Location.parent?_eq_some.mpr ⟨entry, leads⟩

/-- The script is found from the place of the component exactly if the path does not lead
up. -/
theorem text_script_iff :
    (current.resolve (path ++ mapping.script)).text =
        mapping.toVirtual (current.resolve path).text ↔ ¬LeadsUp path := by
  constructor
  · intro same up
    obtain ⟨isUp, leadsUp⟩ := entries.above up
    cases ends : endsWith (current.resolve path).text mapping.component with
    | true =>
        rw [toVirtual_of_endsWith ends, entries.text_script, String.append_left_inj] at same
        exact entries.text_component_iff.mp same.symm up
    | false =>
        rw [toVirtual_of_not_endsWith ends] at same
        have parent := entries.parent?_script
        rw [Location.text_injective same] at parent
        exact entries.parent?_component_iff.mp parent up
  · intro notUp
    have written := entries.text_component_iff.mpr notUp
    have ends := entries.endsWith_belowText_append
    rw [entries.text_script, written, toVirtual_of_endsWith ends]

end Entries

/-- Only a component's extension of two dots lets the path of a component lead up. -/
theorem exists_leadsUp_iff (sound : mapping.flaw? = none) :
    (∃ path, endsWith path mapping.component = true ∧ LeadsUp path) ↔
      mapping.component = ".." := by
  constructor
  · intro leadsUp
    obtain ⟨path, ends, up⟩ := leadsUp
    obtain ⟨directory, name, entries⟩ := exists_entries sound .root ends
    have suffix := endsWith_iff_suffix.mp entries.ends
    rw [(entries.above up).1] at suffix
    obtain ⟨⟨c, rest, chars⟩, -⟩ :=
      extensionFlaw?_eq_none_iff.mp (flaw?_eq_none_iff.mp sound).1
    have long : "..".toList.length ≤ mapping.component.toList.length := by
      rw [chars]
      exact Nat.succ_le_succ (Nat.succ_le_succ (Nat.zero_le _))
    exact String.toList_injective (suffix.eq_of_length_le long)
  · intro dots
    rw [dots]
    exact ⟨"..", by decide +kernel⟩

/-- With sound extensions a virtual path stays virtual when it is resolved. Translating a
path and resolving it can change places, and a script is in the directory of its
component, exactly if the path of the component does not lead up. No path of a component
leads up unless two dots are the extension of components. -/
theorem resolve_translated (sound : mapping.flaw? = none) :
    (∀ (current : Location) (path : String), mapping.isVirtual path = true →
      let script := current.resolve path
      let component := current.resolve (mapping.toComponent path)
      mapping.isVirtual script.text = true ∧
        (component.text = mapping.toComponent script.text ↔
          ¬LeadsUp (mapping.toComponent path)) ∧
        ((∃ directory, component.parent? = some directory ∧ script.parent? = some directory) ↔
          ¬LeadsUp (mapping.toComponent path))) ∧
      (∀ (current : Location) (path : String), endsWith path mapping.component = true →
        ((current.resolve (mapping.toVirtual path)).text =
            mapping.toVirtual (current.resolve path).text ↔ ¬LeadsUp path)) ∧
      ((∃ path, endsWith path mapping.component = true ∧ LeadsUp path) ↔
        mapping.component = "..") := by
  refine ⟨?_, ?_, exists_leadsUp_iff sound⟩
  · intro current path virtual
    obtain ⟨directory, name, entries⟩ :=
      exists_entries sound current (endsWith_toComponent virtual)
    have stays := entries.isVirtual_script
    have translated := entries.toComponent_script
    have parent := entries.parent?_script
    rw [toComponent_append_script_self virtual] at stays translated parent
    dsimp only
    refine ⟨stays, ?_, ?_⟩
    · rw [translated]
      exact entries.text_component_iff
    · rw [← entries.parent?_component_iff, parent]
      constructor
      · intro both
        obtain ⟨other, isParent, same⟩ := both
        rw [Option.some.inj same]
        exact isParent
      · intro isParent
        exact ⟨directory, isParent, rfl⟩
  · intro current path ends
    obtain ⟨directory, name, entries⟩ := exists_entries sound current ends
    rw [toVirtual_of_endsWith ends]
    exact entries.text_script_iff

/-- Extensions that start or end with two dots, and a path through single dots and both
separators. -/
theorem resolve_translated_dotted :
    let mapping : Mapping := { component := "..x", script := ".." }
    let current := Location.root.resolve "/app"
    let path := "pkg\\.\\lib/../..x.."
    mapping.flaw? = none ∧ mapping.isVirtual path = true ∧
      mapping.isVirtual (current.resolve path).text = true ∧
      (current.resolve (mapping.toComponent path)).text =
        mapping.toComponent (current.resolve path).text ∧
      (∃ directory, (current.resolve (mapping.toComponent path)).parent? = some directory ∧
        (current.resolve path).parent? = some directory) ∧
      endsWith "..\\up/..x" mapping.component = true ∧
      (current.resolve (mapping.toVirtual "..\\up/..x")).text =
        mapping.toVirtual (current.resolve "..\\up/..x").text := by
  intro mapping current path
  have sound : mapping.flaw? = none := by decide +kernel
  have virtual : mapping.isVirtual path = true := by decide +kernel
  have ends : endsWith "..\\up/..x" mapping.component = true := by decide +kernel
  obtain ⟨scripts, components, -⟩ := resolve_translated sound
  obtain ⟨stays, translated, together⟩ := scripts current path virtual
  have notUp : ¬LeadsUp (mapping.toComponent path) := by decide +kernel
  have notUpToo : ¬LeadsUp "..\\up/..x" := by decide +kernel
  exact ⟨sound, virtual, stays, translated.mpr notUp, together.mpr notUp, ends,
    (components current _ ends).mpr notUpToo⟩

/-- With two dots for the component's extension a script and its component are in different
directories. -/
theorem resolve_untranslated :
    let mapping : Mapping := { component := "..", script := ".ts" }
    mapping.flaw? = none ∧ mapping.isVirtual "a/...ts" = true ∧
      (Location.root.resolve (mapping.toComponent "a/...ts")).text = "/" ∧
      mapping.toComponent (Location.root.resolve "a/...ts").text = "/a/.." ∧
      endsWith "a/.." mapping.component = true ∧
      (Location.root.resolve (mapping.toVirtual "a/..")).text = "/a/...ts" ∧
      mapping.toVirtual (Location.root.resolve "a/..").text = "/" := by
  decide +kernel

end Mapping

end ScriptView
