import ScriptView.Component.Script
import ScriptView.Host
import ScriptView.Mapping.Basic

/-!
# Views of a host

A view makes the scripts of the components of a host appear as files of their
own. Reading a virtual path reads the script of the component, or nothing if the
component has no script; writing it replaces the script and fails if there is
none. Other operations work on the component in place of its script, except that
directories are listed and made under the names they are given, with components
renamed in listings, and that patterns for components become patterns for
scripts. Nothing is remembered between two operations.
-/

namespace ScriptView

variable {σ : Type}

namespace View

/-- The script that a virtual file shows. -/
def scriptOf (document : String) : String :=
  (Component.script? document).getD ""

/-- Write a file through a mapping. -/
def write (mapping : Mapping) (host : Host σ) (path text : String) : Action σ Unit :=
  if mapping.isVirtual path then do
    let component := mapping.toComponent path
    let document ← Host.ask (host.read component)
    match Component.withScript? document text with
    | some changed => host.write component changed
    | none => throw (.missingScriptBlock component)
  else host.write path text

/-- Read a file through a mapping. -/
def read (mapping : Mapping) (host : Host σ) (path : String) (state : σ) :
    Except Error String :=
  if mapping.isVirtual path then
    (host.read (mapping.toComponent path) state).map scriptOf
  else host.read path state

/-- An entry under the name that a listing shows. -/
def rename (mapping : Mapping) (entry : Entry) : Entry :=
  { entry with path := mapping.toVirtual entry.path }

end View

/-- The view of a host through a mapping. -/
def Host.view (host : Host σ) (mapping : Mapping) : Host σ where
  isCaseSensitive := host.isCaseSensitive
  currentDirectory := host.currentDirectory
  read := View.read mapping host
  list path state := (host.list path state).map (·.map (View.rename mapping))
  hasFile path := host.hasFile (mapping.toComponent path)
  hasDirectory path := host.hasDirectory (mapping.toComponent path)
  realPath path := host.realPath (mapping.toComponent path)
  glob patterns := host.glob (patterns.map mapping.toVirtual)
  write := View.write mapping host
  makeDirectory := host.makeDirectory
  delete path := host.delete (mapping.toComponent path)
  move source target := host.move (mapping.toComponent source) (mapping.toComponent target)
  copy source target := host.copy (mapping.toComponent source) (mapping.toComponent target)

/-- A host seen through a row of mappings, the first of which is next to it. -/
def Host.viewThrough (host : Host σ) (mappings : List Mapping) : Host σ :=
  mappings.foldl Host.view host

end ScriptView
