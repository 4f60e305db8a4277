import ScriptView.Proofs.Disk.Content
import ScriptView.Proofs.Disk.Path

/-!
# Following a path in parts

The segments of a directory are followed first and then the others, with as many links as
the first ones left. More links than are needed change nothing.
-/

namespace ScriptView.Disk

variable {top : Node} {purpose : Purpose} {links left : Nat} {here there : Address}
  {segment target : String} {front rest : List String} {goal : Spot}

/-! ## One segment -/

/-- A segment that can be the name of something in a directory. -/
structure LeadsDown (segment : String) : Prop where
  notVoid : isVoid segment = false
  notUp : segment ≠ ".."
  short : segment.utf8ByteSize ≤ nameLimit

/-- Segments that can stand behind those of a directory, for what a path is followed for. -/
def Purpose.Allows : Purpose → List String → Prop
  | .inspect, rest => rest ≠ []
  | .use, _ => True
  | .write, rest => isOnlySlashes rest = false

theorem Purpose.Allows.append (allows : purpose.Allows rest) (front : List String) :
    purpose.Allows (front ++ rest) := by
  cases purpose with
  | inspect => exact List.append_ne_nil_of_right_ne_nil _ allows
  | use => trivial
  | write =>
      rw [Purpose.Allows, isOnlySlashes, List.all_append, ← isOnlySlashes, ← isOnlySlashes, allows,
        Bool.and_false]

/-- What is done at a link that has to be passed. -/
def passLink (top : Node) (purpose : Purpose) :
    (links : Nat) → Address → List String → Except Fault Spot
  | 0 => fun _ _ => .error .tooManyLinks
  | links + 1 => follow top purpose links

theorem follow_eq (top : Node) (purpose : Purpose) (links : Nat) :
    follow top purpose links = followUpTo top purpose (passLink top purpose links) := by
  cases links with
  | zero => rfl
  | succ links => rfl

@[simp] theorem follow_nil : follow top purpose links here [] = .ok (.taken here) := by
  rw [follow_eq, followUpTo]

/-- What following a path does with one segment depends on what is held under its name. -/
theorem follow_cons :
    follow top purpose links here (segment :: rest) =
      if isVoid segment then follow top purpose links here rest
      else if segment = ".." then follow top purpose links here.dropLast rest
      else if purpose = .write ∧ !rest.isEmpty ∧ isOnlySlashes rest then .error .isDirectory
      else if nameLimit < segment.utf8ByteSize then .error .nameTooLong
      else
        match contentAt? top (here ++ [segment]) with
        | none => if isOnlySlashes rest then .ok (.vacant here segment) else .error .noEntry
        | some (.file _) =>
            if rest.isEmpty then .ok (.taken (here ++ [segment])) else .error .notDirectory
        | some .directory => follow top purpose links (here ++ [segment]) rest
        | some (.link target) =>
            if rest.isEmpty && purpose = .inspect then .ok (.taken (here ++ [segment]))
            else passLink top purpose links (if isAbsolute target then [] else here)
              (segments target ++ rest) := by
  rw [follow_eq, followUpTo, contentAt?]
  cases top.get? (here ++ [segment]) with
  | none => rfl
  | some node => cases node <;> rfl

theorem follow_void (void : isVoid segment = true) :
    follow top purpose links here (segment :: rest) = follow top purpose links here rest := by
  rw [follow_cons, if_pos void]

theorem follow_up :
    follow top purpose links here (".." :: rest) = follow top purpose links here.dropLast rest := by
  have notVoid : isVoid ".." = false := by decide
  rw [follow_cons, notVoid, if_neg Bool.false_ne_true, if_pos rfl]

/-- A name that has nothing but slashes behind it is not to be written. -/
theorem follow_leadsDown (leads : LeadsDown segment)
    (allowed : ¬(purpose = .write ∧ rest ≠ [] ∧ isOnlySlashes rest = true)) :
    follow top purpose links here (segment :: rest) =
      match contentAt? top (here ++ [segment]) with
      | none => if isOnlySlashes rest then .ok (.vacant here segment) else .error .noEntry
      | some (.file _) =>
          if rest.isEmpty then .ok (.taken (here ++ [segment])) else .error .notDirectory
      | some .directory => follow top purpose links (here ++ [segment]) rest
      | some (.link target) =>
          if rest.isEmpty && purpose = .inspect then .ok (.taken (here ++ [segment]))
          else passLink top purpose links (if isAbsolute target then [] else here)
            (segments target ++ rest) := by
  have notWrite : ¬(purpose = .write ∧ (!rest.isEmpty) = true ∧ isOnlySlashes rest = true) := by
    simpa using allowed
  rw [follow_cons, leads.notVoid, if_neg Bool.false_ne_true, if_neg leads.notUp,
    if_neg notWrite, if_neg (Nat.not_lt_of_le leads.short)]

theorem Purpose.Allows.not_onlySlashes (allows : purpose.Allows rest) :
    ¬(purpose = .write ∧ rest ≠ [] ∧ isOnlySlashes rest = true) := by
  rintro ⟨rfl, -, onlySlashes⟩
  rw [Purpose.Allows, onlySlashes] at allows
  contradiction

theorem follow_down (leads : LeadsDown segment) (allows : purpose.Allows rest)
    (found : contentAt? top (here ++ [segment]) = some .directory) :
    follow top purpose links here (segment :: rest) =
      follow top purpose links (here ++ [segment]) rest := by
  rw [follow_leadsDown leads allows.not_onlySlashes, found]

theorem follow_link (leads : LeadsDown segment) (allows : purpose.Allows rest)
    (found : contentAt? top (here ++ [segment]) = some (.link target)) :
    follow top purpose links here (segment :: rest) =
      passLink top purpose links (if isAbsolute target then [] else here)
        (segments target ++ rest) := by
  have passes : ¬(rest.isEmpty && decide (purpose = .inspect)) = true := by
    cases purpose with
    | inspect => simpa [Purpose.Allows] using allows
    | use | write => simp
  rw [follow_leadsDown leads allows.not_onlySlashes, found]
  exact if_neg passes

/-! ## Passing through directories -/

/-- From a directory, with at most so many links on the way, segments lead to another
directory and leave so many links. -/
inductive Passes (top : Node) : Nat → Address → List String → Nat → Address → Prop where
  | here (links : Nat) (address : Address) : Passes top links address [] links address
  | void {links left : Nat} {here there : Address} {segment : String} {rest : List String} :
      isVoid segment = true → Passes top links here rest left there →
      Passes top links here (segment :: rest) left there
  | up {links left : Nat} {here there : Address} {rest : List String} :
      Passes top links here.dropLast rest left there →
      Passes top links here (".." :: rest) left there
  | down {links left : Nat} {here there : Address} {segment : String} {rest : List String} :
      LeadsDown segment → contentAt? top (here ++ [segment]) = some .directory →
      Passes top links (here ++ [segment]) rest left there →
      Passes top links here (segment :: rest) left there
  | link {links left : Nat} {here there : Address} {segment target : String}
      {rest : List String} :
      LeadsDown segment → contentAt? top (here ++ [segment]) = some (.link target) →
      Passes top links (if isAbsolute target then [] else here) (segments target ++ rest) left
        there →
      Passes top (links + 1) here (segment :: rest) left there

/-- Segments pass through directories and links that are still there. -/
theorem Passes.mono {other : Node} (passes : Passes top links here front left there)
    (keeps : ∀ address content, contentAt? top address = some content →
      (contentAt? other address).map Content.shape = some content.shape) :
    Passes other links here front left there := by
  have stays : ∀ address content, contentAt? top address = some content →
      (∀ bytes, content ≠ .file bytes) → contentAt? other address = some content := by
    intro address content isThere notFile
    obtain ⟨now, isNow, same⟩ := Option.map_eq_some_iff.mp (keeps address content isThere)
    rw [isNow, Content.eq_of_shape same notFile]
  induction passes with
  | here => exact .here _ _
  | void void _ ih => exact .void void ih
  | up _ ih => exact .up ih
  | down leads found _ ih => exact .down leads (stays _ _ found (by simp)) ih
  | link leads found _ ih => exact .link leads (stays _ _ found (by simp)) ih

/-- Behind segments that lead to a directory, others are followed from there. -/
theorem Passes.follow_append (passes : Passes top links here front left there)
    (allows : purpose.Allows rest) :
    follow top purpose links here (front ++ rest) = follow top purpose left there rest := by
  induction passes with
  | here => rfl
  | void void _ ih => rw [List.cons_append, follow_void void, ih]
  | up _ ih => rw [List.cons_append, follow_up, ih]
  | down leads found _ ih => rw [List.cons_append, follow_down leads (allows.append _) found, ih]
  | link leads found _ ih =>
      rw [List.cons_append, follow_link leads (allows.append _) found, ← List.append_assoc]
      exact ih

theorem Passes.follow_use (passes : Passes top links here front left there) (rest : List String) :
    follow top .use links here (front ++ rest) = follow top .use left there rest :=
  passes.follow_append trivial

/-- What is followed to some end has no names that are too long, and no file is written
behind a slash. -/
theorem leadsDown_of_follow (ends : follow top purpose links here (segment :: rest) = .ok goal)
    (notVoid : isVoid segment = false) (notUp : segment ≠ "..") :
    LeadsDown segment ∧ ¬(purpose = .write ∧ rest ≠ [] ∧ isOnlySlashes rest = true) := by
  rw [follow_cons, notVoid, if_neg Bool.false_ne_true, if_neg notUp] at ends
  split at ends
  · cases ends
  · next notWrite =>
    split at ends
    · cases ends
    · next short => exact ⟨⟨notVoid, notUp, Nat.le_of_not_lt short⟩, by simpa using notWrite⟩

/-- How segments are followed to an end, one after the other. -/
inductive Follows (top : Node) (purpose : Purpose) :
    Nat → Address → List String → Spot → Prop where
  | here (links : Nat) (address : Address) : Follows top purpose links address [] (.taken address)
  | void {links : Nat} {here : Address} {segment : String} {rest : List String} {goal : Spot} :
      isVoid segment = true → Follows top purpose links here rest goal →
      Follows top purpose links here (segment :: rest) goal
  | up {links : Nat} {here : Address} {rest : List String} {goal : Spot} :
      Follows top purpose links here.dropLast rest goal →
      Follows top purpose links here (".." :: rest) goal
  | missing {links : Nat} {here : Address} {segment : String} {rest : List String} :
      LeadsDown segment → contentAt? top (here ++ [segment]) = none → isOnlySlashes rest = true →
      Follows top purpose links here (segment :: rest) (.vacant here segment)
  | file {links : Nat} {here : Address} {segment : String} {bytes : ByteArray} :
      LeadsDown segment → contentAt? top (here ++ [segment]) = some (.file bytes) →
      Follows top purpose links here [segment] (.taken (here ++ [segment]))
  | down {links : Nat} {here : Address} {segment : String} {rest : List String} {goal : Spot} :
      LeadsDown segment → contentAt? top (here ++ [segment]) = some .directory →
      Follows top purpose links (here ++ [segment]) rest goal →
      Follows top purpose links here (segment :: rest) goal
  | itself {links : Nat} {here : Address} {segment target : String} :
      LeadsDown segment → contentAt? top (here ++ [segment]) = some (.link target) →
      purpose = .inspect → Follows top purpose links here [segment] (.taken (here ++ [segment]))
  | link {links : Nat} {here : Address} {segment target : String} {rest : List String}
      {goal : Spot} :
      LeadsDown segment → contentAt? top (here ++ [segment]) = some (.link target) →
      Follows top purpose links (if isAbsolute target then [] else here)
        (segments target ++ rest) goal →
      Follows top purpose (links + 1) here (segment :: rest) goal

theorem follows_of_follow {row : List String}
    (ends : follow top purpose links here row = .ok goal) :
    Follows top purpose links here row goal := by
  -- A link starts a new row with one link less, and each other step shortens the row.
  induction links using Nat.strongRecOn generalizing here row with
  | _ links fewer =>
    induction row generalizing here with
    | nil =>
        rw [follow_nil] at ends
        cases ends
        exact .here links here
    | cons segment rest ih =>
        by_cases void : isVoid segment = true
        · rw [follow_void void] at ends
          exact .void void (ih ends)
        · by_cases up : segment = ".."
          · rw [up, follow_up] at ends
            exact up ▸ .up (ih ends)
          · obtain ⟨leads, allowed⟩ := leadsDown_of_follow ends (Bool.eq_false_iff.mpr void) up
            rw [follow_leadsDown leads allowed] at ends
            split at ends
            · next nothing =>
              split at ends
              · next onlySlashes =>
                cases ends
                exact .missing leads nothing onlySlashes
              · cases ends
            · next bytes found =>
              split at ends
              · next atEnd =>
                cases ends
                cases List.isEmpty_iff.mp atEnd
                exact .file leads found
              · cases ends
            · next found => exact .down leads found (ih ends)
            · next target found =>
              split at ends
              · next atEnd =>
                cases ends
                rw [Bool.and_eq_true, decide_eq_true_iff, List.isEmpty_iff] at atEnd
                obtain ⟨rfl, inspects⟩ := atEnd
                exact .itself leads found inspects
              · cases links with
                | zero => cases ends
                | succ links => exact .link leads found (fewer links (Nat.lt_succ_self links) ends)

/-- A way that goes on behind some segments passes through the directory that they lead
to. If nothing but slashes is left, the way has to end at something, and without a slash
behind it not at a file. -/
theorem exists_passes (ends : follow top .use links here (front ++ rest) = .ok goal)
    (goesOn : isOnlySlashes rest = true → ∃ address, goal = .taken address ∧
      (rest = [] → ∀ bytes, contentAt? top address ≠ some (.file bytes))) :
    ∃ left there, Passes top links here front left there := by
  induction links using Nat.strongRecOn generalizing here front with
  | _ links fewer =>
    induction front generalizing here with
    | nil => exact ⟨links, here, .here links here⟩
    | cons segment front ih =>
        rw [List.cons_append] at ends
        by_cases void : isVoid segment = true
        · rw [follow_void void] at ends
          obtain ⟨left, there, passes⟩ := ih ends
          exact ⟨left, there, .void void passes⟩
        · by_cases up : segment = ".."
          · rw [up, follow_up] at ends
            obtain ⟨left, there, passes⟩ := ih ends
            exact ⟨left, there, up ▸ .up passes⟩
          · have leads := (leadsDown_of_follow ends (Bool.eq_false_iff.mpr void) up).1
            rw [follow_leadsDown leads (by simp)] at ends
            split at ends
            · next missing =>
              split at ends
              · next onlySlashes =>
                rw [isOnlySlashes, List.all_append, Bool.and_eq_true] at onlySlashes
                obtain ⟨address, isTaken, -⟩ := goesOn onlySlashes.2
                rw [isTaken] at ends
                cases ends
              · cases ends
            · next bytes found =>
              split at ends
              · next atEnd =>
                have nothing := List.append_eq_nil_iff.mp (List.isEmpty_iff.mp atEnd)
                obtain ⟨address, isTaken, notFile⟩ := goesOn (nothing.2 ▸ rfl)
                rw [isTaken] at ends
                cases ends
                exact absurd found (notFile nothing.2 bytes)
              · cases ends
            · next found =>
              obtain ⟨left, there, passes⟩ := ih ends
              exact ⟨left, there, .down leads found passes⟩
            · next target found =>
              rw [if_neg (by simp)] at ends
              cases links with
              | zero => cases ends
              | succ links =>
                  rw [passLink, ← List.append_assoc] at ends
                  obtain ⟨left, there, passes⟩ := fewer links (Nat.lt_succ_self links) ends
                  exact ⟨left, there, .link leads found passes⟩

theorem Passes.left_le (passes : Passes top links here front left there) : left ≤ links := by
  induction passes with
  | here => exact Nat.le_refl _
  | void _ _ ih | up _ ih | down _ _ _ ih => exact ih
  | link _ _ _ ih => exact Nat.le_succ_of_le ih

/-- What is found with some links is found with more, and what is found to be written is
found to be used. -/
theorem follow_use_of_follow {more : Nat} {path : List String} (follows : purpose ≠ .inspect)
    (ends : follow top purpose links here path = .ok goal) (enough : links ≤ more) :
    follow top .use more here path = .ok goal := by
  have row := follows_of_follow ends
  clear ends
  induction row generalizing more with
  | here => exact follow_nil
  | void void _ ih => rw [follow_void void, ih enough]
  | up _ ih => rw [follow_up, ih enough]
  | missing leads nothing onlySlashes =>
      rw [follow_leadsDown leads (by simp), nothing]
      exact if_pos onlySlashes
  | file leads found => rw [follow_leadsDown leads (by simp), found]; rfl
  | down leads found _ ih =>
      rw [follow_leadsDown leads (by simp), found]
      exact ih enough
  | itself _ _ inspects => exact absurd inspects follows
  | link leads found _ ih =>
      cases more with
      | zero => contradiction
      | succ more =>
          rw [follow_leadsDown leads (by simp), found]
          dsimp only
          rw [if_neg (by simp)]
          exact ih (Nat.le_of_succ_le_succ enough)

/-- Whatever the purposes and the links that are left, a path leads to one goal. -/
theorem eq_of_follow {purpose other : Purpose} {links more : Nat} {path : List String}
    {first second : Spot} (follows : purpose ≠ .inspect) (otherFollows : other ≠ .inspect)
    (ends : follow top purpose links here path = .ok first)
    (otherEnds : follow top other more here path = .ok second) : first = second := by
  have here := follow_use_of_follow follows ends (Nat.le_max_left links more)
  have there := follow_use_of_follow otherFollows otherEnds (Nat.le_max_right links more)
  rw [here] at there
  exact Except.ok.inj there

/-- The bytes of files do not matter on the way. -/
theorem follow_congr {other : Node} (same : SameShape top other) {path : List String} :
    follow top purpose links here path = follow other purpose links here path := by
  induction links using Nat.strongRecOn generalizing here path with
  | _ links fewer =>
    induction path generalizing here with
    | nil => rw [follow_nil, follow_nil]
    | cons segment rest ih =>
        have passes : passLink top purpose links = passLink other purpose links := by
          cases links with
          | zero => rfl
          | succ links =>
              funext address row
              exact fewer links (Nat.lt_succ_self links)
        rw [follow_cons, follow_cons]
        simp only [ih, passes]
        rcases same.contentAt?_cases (here ++ [segment]) with eq | ⟨bytes, others, first, second⟩
        · rw [eq]
        · rw [first, second]

/-! ## Whole paths -/

variable {path directory name : String} {address : Address} {node : Node}

theorem spot_eq_ok_iff :
    spot top purpose path = .ok goal ↔
      hasNul path = false ∧ path.utf8ByteSize < pathLimit ∧
        follow top purpose linkLimit [] (segments path) = .ok goal := by
  rw [spot, bind_eq_ok_iff]
  simp only [checked_eq_ok_iff]
  constructor
  · intro runs
    obtain ⟨text, ⟨rfl, noNul, short⟩, follows⟩ := runs
    exact ⟨noNul, short, follows⟩
  · intro follows
    obtain ⟨noNul, short, ends⟩ := follows
    exact ⟨path, ⟨rfl, noNul, short⟩, ends⟩

/-- A path leads to a node if following it ends there. -/
theorem nodeAt_eq_ok_iff_spot :
    nodeAt top path = .ok (address, node) ↔
      spot top .use path = .ok (.taken address) ∧ top.get? address = some node := by
  rw [nodeAt, bind_eq_ok_iff]
  constructor
  · intro runs
    obtain ⟨goal, isSpot, isNode⟩ := runs
    cases goal with
    | vacant directory name => cases isNode
    | taken other =>
        rw [Spot.node] at isNode
        split at isNode
        · next found =>
          cases isNode
          exact ⟨isSpot, found⟩
        · cases isNode
  · intro leads
    obtain ⟨isSpot, found⟩ := leads
    refine ⟨.taken address, isSpot, ?_⟩
    rw [Spot.node, found]

/-- The segments of a path to something that is not a file pass through directories. -/
theorem exists_passes_of_nodeAt (leads : nodeAt top path = .ok (address, node))
    (notFile : node.isFile = false) :
    ∃ left, Passes top linkLimit [] (segments path) left address := by
  obtain ⟨isSpot, found⟩ := nodeAt_eq_ok_iff_spot.mp leads
  obtain ⟨-, -, ends⟩ := spot_eq_ok_iff.mp isSpot
  rw [← List.append_nil (segments path)] at ends
  obtain ⟨left, there, passes⟩ := exists_passes ends fun _ => by
    refine ⟨address, rfl, ?_⟩
    intro _ bytes isFile
    rw [contentAt?_eq_file_iff, found] at isFile
    cases isFile
    contradiction
  rw [passes.follow_use, follow_nil] at ends
  cases ends
  exact ⟨left, passes⟩

/-- Slashes and dots at the end lead nowhere else. -/
theorem Passes.of_append_voids {row voids : List String}
    (passes : Passes top links here row left there) (isRow : row = front ++ voids)
    (areVoid : ∀ segment ∈ voids, isVoid segment = true) :
    Passes top links here front left there := by
  induction passes generalizing front voids with
  | here =>
      rw [(List.append_eq_nil_iff.mp isRow.symm).1]
      exact .here _ _
  | void void further ih =>
      cases front with
      | nil =>
          subst isRow
          exact ih (List.nil_append _).symm (List.forall_mem_cons.mp areVoid).2
      | cons first front =>
          cases isRow
          exact .void void (ih rfl areVoid)
  | up further ih =>
      cases front with
      | nil =>
          subst isRow
          exact absurd (areVoid ".." List.mem_cons_self) (by decide)
      | cons first front =>
          cases isRow
          exact .up (ih rfl areVoid)
  | down leads found further ih =>
      cases front with
      | nil =>
          subst isRow
          exact absurd (areVoid _ List.mem_cons_self) (by simp [leads.notVoid])
      | cons first front =>
          cases isRow
          exact .down leads found (ih rfl areVoid)
  | link leads found further ih =>
      cases front with
      | nil =>
          subst isRow
          exact absurd (areVoid _ List.mem_cons_self) (by simp [leads.notVoid])
      | cons first front =>
          cases isRow
          exact .link leads found (ih (List.append_assoc _ _ _).symm areVoid)

/-- From a directory that a path leads to, one more name is followed with the links that
are left. -/
theorem exists_follow_join (leads : nodeAt top directory = .ok (address, node))
    (notFile : node.isFile = false) (isSegment : IsSegment name) :
    ∃ left ≤ linkLimit, ∀ purpose : Purpose, purpose.Allows [name] →
      follow top purpose linkLimit [] (segments (join directory name)) =
        follow top purpose left address [name] := by
  obtain ⟨left, passes⟩ := exists_passes_of_nodeAt leads notFile
  obtain ⟨front, same, joined⟩ := exists_segments_join directory isSegment
  have passesFront : Passes top linkLimit [] front left address := by
    cases same with
    | inl same => exact same ▸ passes
    | inr slash => exact passes.of_append_voids slash (by decide)
  refine ⟨left, passes.left_le, ?_⟩
  intro purpose allows
  rw [joined]
  exact passesFront.follow_append allows

end ScriptView.Disk
