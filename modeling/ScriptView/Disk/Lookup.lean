import ScriptView.Disk.Node
import ScriptView.Disk.Path
import ScriptView.Error

/-!
# Following a path

A path is followed from the top of the disk, segment by segment. Dots lead
nowhere or up, a name leads down, and a link is replaced by the path that it
holds. What comes behind a name, if only a slash, asks for a directory. Names,
paths and the number of links on a way are limited.
-/

namespace ScriptView.Disk

/-- The greatest number of bytes in a name. -/
def nameLimit : Nat := 255

/-- The number of bytes that a path has to stay below. -/
def pathLimit : Nat := 4096

/-- The greatest number of links on one way. -/
def linkLimit : Nat := 40

/-- Where a path leads: to a node, or to a name that a directory does not hold
yet. -/
inductive Spot where
  | taken (address : Address)
  | vacant (directory : Address) (name : String)
  deriving DecidableEq, Repr

/-- The address that a spot has or would have. -/
def Spot.address : Spot → Address
  | .taken address => address
  | .vacant directory name => directory ++ [name]

/-- What a path is followed for: to look at what it names, where a link at the
very end stays, to use what it leads to, or to write a file there. -/
inductive Purpose where
  | inspect
  | use
  | write
  deriving DecidableEq, Repr

/-- Whether nothing but slashes is left of a path. -/
def isOnlySlashes (path : List String) : Bool :=
  path.all (· == "")

/-- Follow segments from a directory, up to a link that has to be passed: from
there, `pass` goes on. A file is not written where the last name has a slash
behind it. -/
def followUpTo (top : Node) (purpose : Purpose)
    (pass : Address → List String → Except Fault Spot) (here : Address) :
    List String → Except Fault Spot
  | [] => .ok (.taken here)
  | segment :: rest =>
      if isVoid segment then followUpTo top purpose pass here rest
      else if segment = ".." then followUpTo top purpose pass here.dropLast rest
      else if purpose = .write ∧ !rest.isEmpty ∧ isOnlySlashes rest then .error .isDirectory
      else if nameLimit < segment.utf8ByteSize then .error .nameTooLong
      else
        match top.get? (here ++ [segment]) with
        | none => if isOnlySlashes rest then .ok (.vacant here segment) else .error .noEntry
        | some (.file _) =>
            if rest.isEmpty then .ok (.taken (here ++ [segment])) else .error .notDirectory
        | some (.directory _) => followUpTo top purpose pass (here ++ [segment]) rest
        | some (.link target) =>
            if rest.isEmpty && purpose = .inspect then .ok (.taken (here ++ [segment]))
            else pass (if isAbsolute target then [] else here) (segments target ++ rest)

/-- Follow segments from a directory, with at most so many links on the way. -/
def follow (top : Node) (purpose : Purpose) :
    (links : Nat) → Address → List String → Except Fault Spot
  | 0 => followUpTo top purpose fun _ _ => .error .tooManyLinks
  | links + 1 => followUpTo top purpose (follow top purpose links)

/-- Whether a path holds a NUL, which no path may. -/
def hasNul (path : String) : Bool :=
  path.toList.contains '\x00'

/-- A path that can be followed: it holds no NUL and is not too long. -/
def checked (path : String) : Except Fault String :=
  if hasNul path then .error .nulInPath
  else if pathLimit ≤ path.utf8ByteSize then .error .nameTooLong
  else .ok path

/-- Where a path leads, followed from the top. -/
def spot (top : Node) (purpose : Purpose) (path : String) : Except Fault Spot := do
  follow top purpose linkLimit [] (segments (← checked path))

/-- The node at a spot, with its address. -/
def Spot.node (top : Node) : Spot → Except Fault (Address × Node)
  | .taken address =>
      match top.get? address with
      | some node => .ok (address, node)
      | none => .error .noEntry
  | .vacant _ _ => .error .noEntry

/-- The node that a path leads to, a link at its end followed. -/
def nodeAt (top : Node) (path : String) : Except Fault (Address × Node) := do
  (← spot top .use path).node top

/-- The node that a path leads to, a link at its end not followed. -/
def nodeItself (top : Node) (path : String) : Except Fault (Address × Node) := do
  (← spot top .inspect path).node top

/-- Whether a path leads to a directory. -/
def leadsToDirectory (top : Node) (path : String) : Bool :=
  match nodeAt top path with
  | .ok (_, node) => node.isDirectory
  | .error _ => false

/-- Whether a path leads to a file. -/
def leadsToFile (top : Node) (path : String) : Bool :=
  match nodeAt top path with
  | .ok (_, node) => node.isFile
  | .error _ => false

/-- The last segment of a path, slashes at its end aside. -/
inductive LastSegment where
  | name (text : String)
  | dot
  | dots
  | none
  deriving DecidableEq, Repr

/-- The directory that the end of a path is in, and the end itself. -/
def splitLast (top : Node) (path : String) : Except Fault (Address × LastSegment) := do
  let path := segments (← checked path)
  let ending := path.reverse.dropWhile (· == "")
  let directory ← follow top .use linkLimit [] (ending.tail.reverse ++ [""])
  match directory with
  | .vacant _ _ => throw .noEntry
  | .taken address =>
      match ending.head? with
      | none => return (address, .none)
      | some "." => return (address, .dot)
      | some ".." => return (address, .dots)
      | some name => return (address, .name name)

end ScriptView.Disk
