import Mathlib.Logic.Function.Basic
import ScriptView.Proofs.Component.Splice
import ScriptView.Proofs.Memory.Reachable
import ScriptView.View

/-!
# Racing writes to one script

A write to a virtual path reads the component and later writes it back with the
new script. Clients that write to one path at the same time take these two steps
in turn with each other, so that a client may write back a component that is long
replaced. Nothing comes of it: every component that a client can hold is the
original with a script in it, and putting another script there gives the same as
putting it into the original. The state is that of the writes one after another,
in the order of their second steps.
-/

namespace ScriptView.View

variable {σ ι : Type}

/-- The first step of a write to a virtual path: read the component. -/
def fetch (mapping : Mapping) (host : Host σ) (path : String) : Action σ String :=
  Host.ask (host.read (mapping.toComponent path))

/-- The second step of a write to a virtual path: put the script into the component
that was read and write it. -/
def commit (mapping : Mapping) (host : Host σ) (path text document : String) : Action σ Unit :=
  match Component.withScript? document text with
  | some changed => host.write (mapping.toComponent path) changed
  | none => throw (.missingScriptBlock (mapping.toComponent path))

/-- A write to a virtual path is its two steps. -/
theorem write_eq_bind {mapping : Mapping} {host : Host σ} {path : String}
    (virtual : mapping.isVirtual path = true) (text : String) :
    write mapping host path text = fetch mapping host path >>= commit mapping host path text := by
  rw [write, if_pos virtual]
  rfl

/-- How far a client is with its write. -/
inductive Phase where
  | waiting
  | holding (document : String)
  | done (result : Except Error Unit)

/-- The number of steps that a client has taken. -/
def Phase.steps : Phase → Nat
  | .waiting => 0
  | .holding _ => 1
  | .done _ => 2

theorem Phase.steps_le (phase : Phase) : phase.steps ≤ 2 := by
  cases phase with
  | waiting => exact Nat.zero_le 2
  | holding => exact Nat.le_succ 1
  | done => exact Nat.le_refl 2

/-- A state that clients share, how far each of them is, and the clients that have
written, in the order of their second steps. -/
structure Race (σ ι : Type) where
  state : σ
  phase : ι → Phase
  written : List ι

namespace Race

variable [DecidableEq ι]

/-- A race in which no client has taken a step. -/
def start (state : σ) : Race σ ι where
  state
  phase _ := .waiting
  written := []

/-- The race after the next step of a client. -/
def advance (mapping : Mapping) (host : Host σ) (path : String) (text : ι → String)
    (race : Race σ ι) (client : ι) : Race σ ι :=
  match race.phase client with
  | .waiting =>
      match fetch mapping host path race.state with
      | .ok document state =>
          { race with state, phase := Function.update race.phase client (.holding document) }
      | .error error state =>
          { race with state, phase := Function.update race.phase client (.done (.error error)) }
  | .holding document =>
      match commit mapping host path (text client) document race.state with
      | .ok () state =>
          { state
            phase := Function.update race.phase client (.done (.ok ()))
            written := race.written ++ [client] }
      | .error error state =>
          { race with state, phase := Function.update race.phase client (.done (.error error)) }
  | .done _ => race

/-- The race after the steps of clients in an order of any kind. -/
def run (mapping : Mapping) (host : Host σ) (path : String) (text : ι → String)
    (race : Race σ ι) (schedule : List ι) : Race σ ι :=
  schedule.foldl (advance mapping host path text) race

end Race

/-! ## What clients hold -/

/-- Components are alike if every script makes the same of them. -/
def Alike (left right : String) : Prop :=
  ∀ script, Component.withScript? left script = Component.withScript? right script

theorem commit_congr {left right : String} (alike : Alike left right) (mapping : Mapping)
    (host : Host σ) (path text : String) :
    commit mapping host path text left = commit mapping host path text right := by
  rw [commit, commit, alike text]

/-- Reading a component that is stored. -/
theorem fetch_of_stored {mapping : Mapping} {current : Location} {path document : String}
    {tree : Memory.Tree}
    (stored : tree.text? (current.resolve (mapping.toComponent path)) = some document) :
    fetch mapping (Memory.host current) path tree = .ok document tree := by
  have answer : (Memory.host current).read (mapping.toComponent path) tree = .ok document :=
    Memory.Tree.read_eq_ok.mpr stored
  rw [fetch, Host.ask, answer]

/-- Writing a component back where one is stored. -/
theorem exists_commit {mapping : Mapping} {current : Location} {path text document changed : String}
    {tree : Memory.Tree} (closed : tree.Closed)
    (stored : tree.isFile (current.resolve (mapping.toComponent path)) = true)
    (wrote : Component.withScript? document text = some changed) :
    ∃ written, commit mapping (Memory.host current) path text document tree = .ok () written ∧
      written.Closed ∧
      written.text? (current.resolve (mapping.toComponent path)) = some changed := by
  rcases closed.exists_addFile stored changed with ⟨written, added⟩
  refine ⟨written, ?_, closed.addFile added, ?_⟩
  · rw [commit, wrote]
    exact Memory.write_of_addFile added
  · rw [Memory.Tree.text?_addFile added, if_pos rfl]

namespace Race

variable {mapping : Mapping} {current : Location} {path document : String}
  {block : Component.Block} {text : ι → String} {tree : Memory.Tree} {race : Race Memory.Tree ι}

/-- What holds of a race at every moment: the component is stored as the original
or as the last client left it, whatever clients hold is like the original, and
the tree is the one that the writes make in their order. -/
structure Sound (mapping : Mapping) (current : Location) (path document : String)
    (text : ι → String) (tree : Memory.Tree) (race : Race Memory.Tree ι) : Prop where
  closed : race.state.Closed
  stored : ∃ held, race.state.text? (current.resolve (mapping.toComponent path)) = some held ∧
    Alike held document ∧
    match race.written.getLast? with
    | none => held = document
    | some last => Component.withScript? document (text last) = some held
  holding : ∀ client held, race.phase client = .holding held → Alike held document
  noError : ∀ client error, race.phase client ≠ .done (.error error)
  wrote : ∀ client, client ∈ race.written ↔ race.phase client = .done (.ok ())
  inOrder : (race.written.forM fun client =>
    write mapping (Memory.host current) path (text client)) tree = .ok () race.state

theorem sound_start (closed : tree.Closed)
    (stored : tree.text? (current.resolve (mapping.toComponent path)) = some document) :
    Sound mapping current path document text tree (start tree) where
  closed := closed
  stored := ⟨document, stored, fun _ => rfl, rfl⟩
  holding _ _ held := nomatch held
  noError _ _ failed := nomatch failed
  wrote client := by
    constructor
    · intro member
      contradiction
    · intro done
      cases done
  inOrder := rfl

variable [DecidableEq ι]

/-- One client takes one step. -/
theorem steps_update {phase : ι → Phase} {client : ι} {next : Phase}
    (further : next.steps = min 2 ((phase client).steps + 1)) (other : ι) :
    (Function.update phase client next other).steps =
      min 2 ((phase other).steps + [client].count other) := by
  rw [Function.update_apply]
  split
  · next same =>
    rw [same, List.count_singleton_self]
    exact further
  · next differs =>
    rw [List.count_singleton, beq_eq_false_iff_ne.mpr (Ne.symm differs)]
    exact (Nat.min_eq_right (phase other).steps_le).symm

/-- A client that reads holds what is stored. -/
theorem Sound.fetched (sound : Sound mapping current path document text tree race)
    {client : ι} (waits : race.phase client = .waiting) {held : String}
    (alike : Alike held document) :
    Sound mapping current path document text tree
      { race with phase := Function.update race.phase client (.holding held) } where
  closed := sound.closed
  stored := sound.stored
  holding := by
    intro other document' holds
    dsimp only at holds
    rw [Function.update_apply] at holds
    split at holds
    · cases holds
      exact alike
    · exact sound.holding other document' holds
  noError := by
    intro other error failed
    dsimp only at failed
    rw [Function.update_apply] at failed
    split at failed
    · contradiction
    · exact sound.noError other error failed
  wrote := by
    intro other
    dsimp only
    rw [Function.update_apply, sound.wrote other]
    split
    · next same =>
      rw [same, waits]
      constructor <;> intro done <;> cases done
    · rfl
  inOrder := sound.inOrder

/-- A client that writes what it holds leaves what a whole write would leave. -/
theorem Sound.committed (virtual : mapping.isVirtual path = true)
    (selected : (Component.outline document.toList).scriptBlock? = some block)
    (notSelfClosed : block.ending ≠ .selfClosed) {client : ι}
    (fits : Component.Fits (text client).toList block)
    (sound : Sound mapping current path document text tree race) {held : String}
    (alike : Alike held document) :
    ∃ written,
      commit mapping (Memory.host current) path (text client) held race.state = .ok () written ∧
      Sound mapping current path document text tree
        { state := written
          phase := Function.update race.phase client (.done (.ok ()))
          written := race.written ++ [client] } := by
  rcases sound.stored with ⟨now, stored, alikeNow, _⟩
  rcases Component.exists_withScript? selected (text client) with ⟨changed, wrote⟩
  have file : race.state.isFile (current.resolve (mapping.toComponent path)) = true := by
    rw [Memory.Tree.isFile_eq_isSome, stored]
    rfl
  rcases exists_commit sound.closed file ((alike (text client)).trans wrote) with
    ⟨written, commits, closed, storedThen⟩
  refine ⟨written, commits, closed, ⟨changed, storedThen, ?_, ?_⟩, ?_, ?_, ?_, ?_⟩
  · exact fun script => Component.withScript?_withScript? selected notSelfClosed fits wrote script
  · rw [List.getLast?_concat]
    exact wrote
  · intro other document' holds
    dsimp only at holds
    rw [Function.update_apply] at holds
    split at holds
    · contradiction
    · exact sound.holding other document' holds
  · intro other error failed
    dsimp only at failed
    rw [Function.update_apply] at failed
    split at failed
    · cases failed
    · exact sound.noError other error failed
  · intro other
    dsimp only
    rw [Function.update_apply, List.mem_append, List.mem_singleton, sound.wrote other]
    split
    · next same => simp [same]
    · next differs => simp [differs]
  · have likeHeld : Alike now held := fun script => (alikeNow script).trans (alike script).symm
    rw [Action.forM_concat sound.inOrder, write_eq_bind virtual,
      Action.bind_of_ok (fetch_of_stored stored), commit_congr likeHeld, commits]

/-- A step keeps a race sound, and the client whose step it is gets on by one step
unless it is done. -/
theorem Sound.advance (virtual : mapping.isVirtual path = true)
    (selected : (Component.outline document.toList).scriptBlock? = some block)
    (notSelfClosed : block.ending ≠ .selfClosed)
    (fits : ∀ client, Component.Fits (text client).toList block)
    (sound : Sound mapping current path document text tree race) (client : ι) :
    Sound mapping current path document text tree
        (race.advance mapping (Memory.host current) path text client) ∧
      ∀ other, ((race.advance mapping (Memory.host current) path text client).phase other).steps =
        min 2 ((race.phase other).steps + [client].count other) := by
  rcases sound.stored with ⟨held, stored, alike, _⟩
  cases phase : race.phase client with
  | done result =>
      rw [Race.advance, phase]
      refine ⟨sound, fun other => ?_⟩
      have stays : (race.phase client).steps = min 2 ((race.phase client).steps + 1) := by
        rw [phase]
        rfl
      have same := steps_update stays other
      rw [Function.update_eq_self] at same
      exact same
  | waiting =>
      rw [Race.advance, phase]
      dsimp only
      rw [fetch_of_stored stored]
      refine ⟨sound.fetched phase alike, steps_update ?_⟩
      rw [phase]
      rfl
  | holding document' =>
      rcases sound.committed virtual selected notSelfClosed (fits client)
        (sound.holding client document' phase) with ⟨written, commits, soundThen⟩
      rw [Race.advance, phase]
      dsimp only
      rw [commits]
      refine ⟨soundThen, steps_update ?_⟩
      rw [phase]
      rfl

/-- However clients take turns, the race stays sound, and every turn is a step. -/
theorem Sound.run (virtual : mapping.isVirtual path = true)
    (selected : (Component.outline document.toList).scriptBlock? = some block)
    (notSelfClosed : block.ending ≠ .selfClosed)
    (fits : ∀ client, Component.Fits (text client).toList block)
    (sound : Sound mapping current path document text tree race) (schedule : List ι) :
    Sound mapping current path document text tree
        (race.run mapping (Memory.host current) path text schedule) ∧
      ∀ other, ((race.run mapping (Memory.host current) path text schedule).phase other).steps =
        min 2 ((race.phase other).steps + schedule.count other) := by
  induction schedule generalizing race with
  | nil => exact ⟨sound, fun other => (Nat.min_eq_right (race.phase other).steps_le).symm⟩
  | cons client rest ih =>
      rcases sound.advance virtual selected notSelfClosed fits client with ⟨soundThen, first⟩
      rcases ih soundThen with ⟨soundAtEnd, others⟩
      refine ⟨soundAtEnd, fun other => ?_⟩
      have steps := others other
      rw [first other] at steps
      rw [← List.singleton_append, List.count_append]
      exact steps.trans (by omega)

omit [DecidableEq ι] in
/-- A client that has taken both steps has not failed. -/
theorem Sound.phase_eq_done (sound : Sound mapping current path document text tree race)
    {client : ι} (both : (race.phase client).steps = 2) :
    race.phase client = .done (.ok ()) := by
  cases phase : race.phase client with
  | waiting =>
      rw [phase] at both
      cases both
  | holding =>
      rw [phase] at both
      cases both
  | done result =>
      cases result with
      | ok => rfl
      | error error => exact absurd phase (sound.noError client error)

/-- What a race comes to at some moment. Nobody has failed, those are done who have
written, the component is the original or the original with the script of the
client that wrote last, this is also what a reader of the virtual path sees, and
the state is that of the writes one after another. -/
structure Outcome (mapping : Mapping) (host : Host σ) (path document : String)
    (text : ι → String) (state : σ) (race : Race σ ι) : Prop where
  noError : ∀ client error, race.phase client ≠ .done (.error error)
  wrote : ∀ client, client ∈ race.written ↔ race.phase client = .done (.ok ())
  untouched : race.written = [] →
    host.read (mapping.toComponent path) race.state = .ok document ∧
      ∃ script, Component.script? document = some script ∧
        (host.view mapping).read path race.state = .ok script
  lastWins : ∀ last, race.written.getLast? = some last →
    ∃ changed, Component.withScript? document (text last) = some changed ∧
      host.read (mapping.toComponent path) race.state = .ok changed ∧
      (host.view mapping).read path race.state = .ok (text last)
  inOrder : (race.written.forM fun client => (host.view mapping).write path (text client)) state =
    .ok () race.state

end Race

theorem read_of_stored {mapping : Mapping} {current : Location} {path document script : String}
    {tree : Memory.Tree} (virtual : mapping.isVirtual path = true)
    (stored : tree.text? (current.resolve (mapping.toComponent path)) = some document)
    (shown : Component.script? document = some script) :
    (Memory.host current).read (mapping.toComponent path) tree = .ok document ∧
      ((Memory.host current).view mapping).read path tree = .ok script := by
  have answer : (Memory.host current).read (mapping.toComponent path) tree = .ok document :=
    Memory.Tree.read_eq_ok.mpr stored
  refine ⟨answer, ?_⟩
  change read mapping (Memory.host current) path tree = _
  rw [read, if_pos virtual, answer]
  change Except.ok (scriptOf document) = _
  rw [scriptOf, shown, Option.getD_some]

/-- Clients that write to the script of one component, in whatever order they take
their steps, do not damage it, and have written after two steps. -/
theorem outcome_run [DecidableEq ι] {store : Memory.Store} (reachable : Memory.Reachable store)
    {mapping : Mapping} {path document : String} (virtual : mapping.isVirtual path = true)
    (stored : (Memory.host store.current).read (mapping.toComponent path) store.tree = .ok document)
    {block : Component.Block}
    (selected : (Component.outline document.toList).scriptBlock? = some block)
    (notSelfClosed : block.ending ≠ .selfClosed) {text : ι → String}
    (fits : ∀ client, Component.Fits (text client).toList block) (schedule : List ι) :
    ((Race.start store.tree).run mapping (Memory.host store.current) path text schedule).Outcome
        mapping (Memory.host store.current) path document text store.tree ∧
      ∀ client, 2 ≤ schedule.count client → client ∈ ((Race.start store.tree).run mapping
        (Memory.host store.current) path text schedule).written := by
  have there : store.tree.text? (store.current.resolve (mapping.toComponent path)) =
      some document := Memory.Tree.read_eq_ok.mp stored
  rcases (Race.sound_start reachable.closed there).run virtual selected notSelfClosed fits
    schedule with ⟨sound, steps⟩
  rcases sound.stored with ⟨held, storedThen, _, origin⟩
  refine ⟨?_, fun client twice => (sound.wrote client).mpr ?_⟩
  constructor
  · exact sound.noError
  · exact sound.wrote
  · intro nobody
    rw [nobody, List.getLast?_nil] at origin
    subst origin
    rcases Component.exists_script? selected with ⟨script, shown⟩
    rcases read_of_stored virtual storedThen shown with ⟨answer, seen⟩
    exact ⟨answer, script, shown, seen⟩
  · intro last isLast
    rw [isLast] at origin
    have shown := Component.script?_withScript? selected notSelfClosed (fits last) origin
    exact ⟨held, origin, read_of_stored virtual storedThen shown⟩
  · exact sound.inOrder
  · have both : min 2 (Phase.steps .waiting + schedule.count client) = 2 :=
      Nat.min_eq_left (Nat.le_add_left_of_le twice)
    exact sound.phase_eq_done ((steps client).trans both)

/-- Two clients that both read before either of them writes. -/
theorem outcome_run_crossing :
    ∃ (store : Memory.Store) (race : Race Memory.Tree Bool), Memory.Reachable store ∧
      (Memory.host store.current).read (Mapping.standard.toComponent "/A.vue.ts") store.tree =
        .ok "<script>let c</script>" ∧
      race = (Race.start store.tree).run .standard (Memory.host store.current) "/A.vue.ts"
        (fun second => if second then "let b" else "let a") [false, true, true, false] ∧
      race.Outcome .standard (Memory.host store.current) "/A.vue.ts" "<script>let c</script>"
        (fun second => if second then "let b" else "let a") store.tree ∧
      ∀ client, client ∈ race.written := by
  have start : ∃ store, Memory.Reachable store ∧ store.tree.text? (store.current.resolve
      (Mapping.standard.toComponent "/A.vue.ts")) = some "<script>let c</script>" :=
    ⟨_, .changed (.write "/A.vue" "<script>let c</script>") .new, by decide +kernel⟩
  rcases start with ⟨store, reachable, stored⟩
  have selected : (Component.outline "<script>let c</script>".toList).scriptBlock? =
      some ⟨.script, [], ⟨"<script>".toList⟩, "let c".toList, .endTag "</script>".toList⟩ := by
    decide +kernel
  have fits : ∀ second : Bool, Component.Fits (if second then "let b" else "let a").toList
      ⟨.script, [], ⟨"<script>".toList⟩, "let c".toList, .endTag "</script>".toList⟩ := by
    intro second
    cases second
    · exact ⟨by decide +kernel, .inr ⟨'a', by decide, by decide⟩⟩
    · exact ⟨by decide +kernel, .inr ⟨'b', by decide, by decide⟩⟩
  have virtual : Mapping.standard.isVirtual "/A.vue.ts" = true := by decide +kernel
  rcases outcome_run reachable virtual (Memory.Tree.read_eq_ok.mpr stored) selected (by decide) fits
    [false, true, true, false] with ⟨outcome, wrote⟩
  refine ⟨store, _, reachable, Memory.Tree.read_eq_ok.mpr stored, rfl, outcome, ?_⟩
  intro client
  apply wrote
  cases client
  · decide
  · decide

end ScriptView.View
