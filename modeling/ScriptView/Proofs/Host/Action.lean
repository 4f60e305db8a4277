import ScriptView.Host

/-!
# What actions leave

An action that fails leaves a state too, the one that it had reached. A property
of states that actions keep is therefore looked at after every end of them, and
an action keeps what its parts keep.
-/

namespace ScriptView

variable {ε σ α β : Type}

namespace Action

/-- The state that an action leaves, whether it fails or not. -/
def after (action : Action σ α) (state : σ) : σ :=
  match action state with
  | .ok _ left => left
  | .error _ left => left

/-- The state that an action leaves, unless it fails. -/
def left? (action : Action σ Unit) (state : σ) : Option σ :=
  match action state with
  | .ok () left => some left
  | .error _ _ => none

theorem exists_of_map_left? {action : Action σ Unit} {state : σ} {look : σ → β} {seen : β}
    (ends : (action.left? state).map look = some seen) :
    ∃ left, action state = .ok () left ∧ look left = seen := by
  rw [left?] at ends
  cases result : action state with
  | ok value left =>
      rw [result] at ends
      exact ⟨left, rfl, Option.some.inj ends⟩
  | error =>
      rw [result] at ends
      cases ends

/-- The error that an action ends with and the state that it leaves then. -/
def failure? (action : Action σ α) (state : σ) : Option (Error × σ) :=
  match action state with
  | .ok _ _ => none
  | .error error left => some (error, left)

theorem exists_of_map_failure? {action : Action σ α} {state : σ} {look : σ → β} {error : Error}
    {seen : β} (ends : (action.failure? state).map (Prod.map id look) = some (error, seen)) :
    ∃ left, action state = .error error left ∧ look left = seen := by
  rw [failure?] at ends
  cases result : action state with
  | ok =>
      rw [result] at ends
      cases ends
  | error found left =>
      rw [result] at ends
      cases ends
      exact ⟨left, rfl, rfl⟩

theorem bind_of_ok {action : EStateM ε σ α} {further : α → EStateM ε σ β} {state between : σ}
    {value : α}
    (ends : action state = .ok value between) :
    (action >>= further) state = further value between := by
  change EStateM.bind action further state = _
  rw [EStateM.bind, ends]

theorem bind_of_error {action : EStateM ε σ α} {further : α → EStateM ε σ β} {state left : σ}
    {error : ε} (fails : action state = .error error left) :
    (action >>= further) state = .error error left := by
  change EStateM.bind action further state = _
  rw [EStateM.bind, fails]

/-- What ends well has parts that end well. -/
theorem exists_of_bind_eq_ok {action : EStateM ε σ α} {further : α → EStateM ε σ β}
    {state left : σ} {result : β} (ends : (action >>= further) state = .ok result left) :
    ∃ value between, action state = .ok value between ∧ further value between = .ok result left := by
  change EStateM.bind action further state = _ at ends
  rw [EStateM.bind] at ends
  cases first : action state with
  | ok value between =>
      rw [first] at ends
      exact ⟨value, between, rfl, ends⟩
  | error =>
      rw [first] at ends
      cases ends

/-- What fails has a part that fails. -/
theorem fails_or_of_bind_eq_error {action : EStateM ε σ α} {further : α → EStateM ε σ β}
    {state left : σ} {error : ε} (fails : (action >>= further) state = .error error left) :
    action state = .error error left ∨
      ∃ value between, action state = .ok value between ∧
        further value between = .error error left := by
  change EStateM.bind action further state = _ at fails
  rw [EStateM.bind] at fails
  cases first : action state with
  | ok value between =>
      rw [first] at fails
      exact .inr ⟨value, between, rfl, fails⟩
  | error =>
      rw [first] at fails
      cases fails
      exact .inl rfl

/-- In a row of actions that ends well, each one ends well behind those before it. -/
theorem exists_of_forM_eq_ok {row : List β} {action : β → EStateM ε σ Unit} {state left : σ}
    {item : β} (ends : row.forM action state = .ok () left) (member : item ∈ row) :
    ∃ earlier later between after, row = earlier ++ item :: later ∧
      earlier.forM action state = .ok () between ∧ action item between = .ok () after := by
  induction row generalizing state with
  | nil => cases member
  | cons first rest ih =>
      obtain ⟨⟨⟩, between, begins, goesOn⟩ := exists_of_bind_eq_ok ends
      cases List.mem_cons.mp member with
      | inl isFirst => exact ⟨[], rest, state, between, isFirst ▸ rfl, rfl, isFirst ▸ begins⟩
      | inr further =>
          obtain ⟨earlier, later, stop, after, rfl, done, isDone⟩ := ih goesOn further
          exact ⟨first :: earlier, later, stop, after, rfl, (bind_of_ok begins).trans done, isDone⟩

/-- A row of actions fails at one of them, behind others that end well. -/
theorem exists_of_forM_eq_error {row : List β} {action : β → EStateM ε σ Unit} {state left : σ}
    {error : ε} (fails : row.forM action state = .error error left) :
    ∃ earlier item later between, row = earlier ++ item :: later ∧
      earlier.forM action state = .ok () between ∧ action item between = .error error left := by
  induction row generalizing state with
  | nil => cases fails
  | cons item rest ih =>
      rcases fails_or_of_bind_eq_error fails with here | ⟨⟨⟩, between, first, others⟩
      · exact ⟨[], item, rest, state, rfl, rfl, here⟩
      · rcases ih others with ⟨earlier, last, later, stop, rfl, done, stops⟩
        refine ⟨item :: earlier, last, later, stop, rfl, ?_, stops⟩
        exact (bind_of_ok first).trans done

/-- Actions in a row and one more. -/
theorem forM_concat {front : List β} {last : β} {action : β → EStateM ε σ Unit}
    {state between : σ} (ends : front.forM action state = .ok () between) :
    (front ++ [last]).forM action state = action last between := by
  have split : (front ++ [last]).forM action = front.forM action >>= fun _ => action last := by
    rw [List.forM_eq_forM, List.forM_append, List.forM_cons, List.forM_nil]
    exact bind_congr fun _ => bind_pure _
  rw [split, bind_of_ok ends]

/-- A state that an action may leave, whether it fails or not. -/
def Leaves (action : EStateM ε σ α) (state left : σ) : Prop :=
  (∃ value, action state = .ok value left) ∨ ∃ error, action state = .error error left

theorem leaves_of_ok {action : EStateM ε σ α} {state left : σ} {value : α}
    (ends : action state = .ok value left) : Leaves action state left :=
  .inl ⟨value, ends⟩

theorem leaves_of_error {action : EStateM ε σ α} {state left : σ} {error : ε}
    (fails : action state = .error error left) : Leaves action state left :=
  .inr ⟨error, fails⟩

theorem eq_of_leaves_of_ok {action : EStateM ε σ α} {state left other : σ} {value : α}
    (leaves : Leaves action state left) (ends : action state = .ok value other) : left = other := by
  rcases leaves with ⟨result, isLeft⟩ | ⟨error, isLeft⟩
  · rw [ends] at isLeft
    cases isLeft
    rfl
  · rw [ends] at isLeft
    cases isLeft

theorem eq_of_leaves_of_error {action : EStateM ε σ α} {state left other : σ} {error : ε}
    (leaves : Leaves action state left) (fails : action state = .error error other) :
    left = other := by
  rcases leaves with ⟨result, isLeft⟩ | ⟨found, isLeft⟩
  · rw [fails] at isLeft
    cases isLeft
  · rw [fails] at isLeft
    cases isLeft
    rfl

theorem leaves_after (action : Action σ α) (state : σ) :
    Leaves action state (action.after state) := by
  rw [after]
  cases ends : action state with
  | ok value left => exact leaves_of_ok ends
  | error error left => exact leaves_of_error ends

/-- What two actions in a row leave is left by the first one if it fails. -/
theorem leaves_of_bind {action : EStateM ε σ α} {further : α → EStateM ε σ β} {state left : σ}
    (leaves : Leaves (action >>= further) state left) :
    (∃ error, action state = .error error left) ∨
      ∃ value between, action state = .ok value between ∧ Leaves (further value) between left := by
  rcases leaves with ⟨value, ends⟩ | ⟨error, fails⟩
  · rcases exists_of_bind_eq_ok ends with ⟨first, between, begins, goesOn⟩
    exact .inr ⟨first, between, begins, leaves_of_ok goesOn⟩
  · rcases fails_or_of_bind_eq_error fails with here | ⟨first, between, begins, goesOn⟩
    · exact .inl ⟨error, here⟩
    · exact .inr ⟨first, between, begins, leaves_of_error goesOn⟩

/-- A row of actions keeps what each of them keeps. -/
theorem holds_of_leaves_forM {property : σ → Prop} {row : List β} {action : β → EStateM ε σ Unit}
    {state left : σ} (leaves : Leaves (row.forM action) state left)
    (keeps : ∀ item ∈ row, ∀ before after, property before → Leaves (action item) before after →
      property after) (holds : property state) : property left := by
  induction row generalizing state with
  | nil =>
      rcases leaves with ⟨_, ends⟩ | ⟨_, fails⟩
      · cases ends
        exact holds
      · cases fails
  | cons item rest ih =>
      rcases leaves_of_bind leaves with ⟨error, fails⟩ | ⟨_, between, ends, goesOn⟩
      · exact keeps item List.mem_cons_self _ _ holds (leaves_of_error fails)
      · exact ih goesOn (fun other member => keeps other (List.mem_cons_of_mem _ member))
          (keeps item List.mem_cons_self _ _ holds (leaves_of_ok ends))

/-- An action leads from states with a property to such states. -/
def Keeps (property : σ → Prop) (action : Action σ α) : Prop :=
  ∀ state, property state → property (action.after state)

namespace Keeps

variable {property : σ → Prop}

theorem of_ok {action : Action σ α} {state left : σ} {value : α} (keeps : Keeps property action)
    (holds : property state) (ends : action state = .ok value left) : property left := by
  have further := keeps state holds
  rw [after, ends] at further
  exact further

theorem pure (value : α) : Keeps property (Pure.pure value : Action σ α) :=
  fun _ holds => holds

theorem throw (error : Error) : Keeps property (MonadExcept.throw error : Action σ α) :=
  fun _ holds => holds

theorem get : Keeps property (MonadState.get : Action σ σ) :=
  fun _ holds => holds

theorem bind {action : Action σ α} {further : α → Action σ β} (keeps : Keeps property action)
    (keepsFurther : ∀ value, Keeps property (further value)) :
    Keeps property (action >>= further) := by
  intro state holds
  have first := keeps state holds
  rw [after] at first ⊢
  change property (match EStateM.bind action further state with
    | .ok _ left => left
    | .error _ left => left)
  rw [EStateM.bind]
  cases ends : action state with
  | ok value left =>
      rw [ends] at first
      exact keepsFurther value left first
  | error error left =>
      rw [ends] at first
      exact first

theorem forM {row : List β} {action : β → Action σ Unit}
    (keeps : ∀ item, Keeps property (action item)) : Keeps property (row.forM action) := by
  induction row with
  | nil => exact pure ()
  | cons item rest ih => exact bind (keeps item) fun _ => ih

end Keeps

end Action

/-- A change that is asked of a host. -/
inductive Change where
  | write (path text : String)
  | makeDirectory (path : String)
  | delete (path : String)
  | move (source target : String)
  | copy (source target : String)
  deriving DecidableEq, Repr

/-- The host's action for a change. -/
def Change.run (host : Host σ) : Change → Action σ Unit
  | .write path text => host.write path text
  | .makeDirectory path => host.makeDirectory path
  | .delete path => host.delete path
  | .move source target => host.move source target
  | .copy source target => host.copy source target

end ScriptView
