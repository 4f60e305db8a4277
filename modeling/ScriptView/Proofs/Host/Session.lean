import ScriptView.Proofs.Host.Action

/-!
# Sessions with a host

A session is a row of requests to a host, questions and changes in any order. Each
request is answered, with an error if it fails, and leaves a state for the next one.
Hosts that deal alike with every single request have the same sessions.
-/

namespace ScriptView

variable {σ : Type}

/-- What can be asked of a host without changing anything. -/
inductive Question where
  | isCaseSensitive
  | currentDirectory
  | read (path : String)
  | list (path : String)
  | hasFile (path : String)
  | hasDirectory (path : String)
  | realPath (path : String)
  | glob (patterns : List String)
  deriving DecidableEq, Repr

/-- A question or a change, with the paths as they are written. -/
inductive Request where
  | ask (question : Question)
  | make (change : Change)
  deriving DecidableEq, Repr

/-- What a host replies if nothing fails. -/
inductive Reply where
  | done
  | truth (value : Bool)
  | text (text : String)
  | entries (entries : List Entry)
  | paths (paths : List String)
  deriving DecidableEq, Repr

theorem Reply.eq_of_map_text {left right : Except Error String}
    (same : left.map Reply.text = right.map Reply.text) : left = right := by
  cases left with
  | error error =>
      cases right with
      | error other => cases same; rfl
      | ok text => cases same
  | ok text =>
      cases right with
      | error error => cases same
      | ok other => cases same; rfl

/-- The reply to a request or the error that it ends with, and the state that is left. -/
structure Exchange (σ : Type) where
  reply : Except Error Reply
  left : σ

namespace Host

/-- The host's reply to a question. -/
def reply (host : Host σ) (state : σ) : Question → Except Error Reply
  | .isCaseSensitive => .ok (.truth host.isCaseSensitive)
  | .currentDirectory => .ok (.text host.currentDirectory)
  | .read path => (host.read path state).map .text
  | .list path => (host.list path state).map .entries
  | .hasFile path => .ok (.truth (host.hasFile path state))
  | .hasDirectory path => .ok (.truth (host.hasDirectory path state))
  | .realPath path => (host.realPath path state).map .text
  | .glob patterns => .ok (.paths (host.glob patterns state))

/-- What comes of a request to a host. -/
def exchange (host : Host σ) (state : σ) : Request → Exchange σ
  | .ask question => ⟨host.reply state question, state⟩
  | .make change =>
      match change.run host state with
      | .ok () left => ⟨.ok .done, left⟩
      | .error error left => ⟨.error error, left⟩

/-- What comes of requests that are made one after the other. -/
def session (host : Host σ) (state : σ) : List Request → List (Exchange σ)
  | [] => []
  | request :: rest =>
      host.exchange state request :: host.session (host.exchange state request).left rest

/-- Hosts that deal alike with each request have the same sessions. -/
theorem session_congr {left right : Host σ}
    (alike : ∀ state request, left.exchange state request = right.exchange state request)
    (state : σ) (requests : List Request) :
    left.session state requests = right.session state requests := by
  induction requests generalizing state with
  | nil => rfl
  | cons request rest ih => rw [session, session, alike, ih]

end Host

end ScriptView
