import ScriptView.Disk.Lookup

/-!
# Calls on a disk

The calls that read and change a disk. Each of them either does the whole of
what it is for or reports one fault and changes nothing, apart from the last
section, whose operations are made of several calls and may stop midway.
-/

namespace ScriptView.Disk

/-- An operation on a disk, given by its top. -/
abbrev Call (α : Type) := EStateM Fault Node α

/-- Put the answer to a question about the disk into an operation. -/
def ask {α : Type} (question : Node → Except Fault α) : Call α := fun top =>
  match question top with
  | .ok value => .ok value top
  | .error fault => .error fault top

/-! ## Reading -/

/-- The bytes of a file. -/
def readBytes (top : Node) (path : String) : Except Fault ByteArray := do
  match ← nodeAt top path with
  | (_, .file bytes) => return bytes
  | (_, _) => throw .isDirectory

/-- The text of a file, which has to be valid UTF-8. -/
def readText (top : Node) (path : String) : Except Fault String := do
  match String.fromUTF8? (← readBytes top path) with
  | some text => return text
  | none => throw .notUtf8

/-- The entries of a directory. -/
def readDirectory (top : Node) (path : String) : Except Fault (List (String × Node)) := do
  match ← nodeAt top path with
  | (_, .directory entries) => return entries
  | (_, _) => throw .notDirectory

/-- The path of an address. -/
def Address.text (address : Address) : String :=
  "/" ++ String.intercalate "/" address

/-- The address of what a path leads to, as a path without dots and links. -/
def realPath (top : Node) (path : String) : Except Fault String := do
  let (address, _) ← nodeAt top path
  return address.text

/-! ## Changing -/

/-- Make a directory in one that exists. -/
def makeDirectory (path : String) : Call Unit := do
  let (directory, ending) ← ask (splitLast · path)
  match ending with
  | .name name =>
      if nameLimit < name.utf8ByteSize then throw .nameTooLong
      if ((← get).get? (directory ++ [name])).isSome then throw .entryExists
      modify (Node.put (directory ++ [name]) (.directory []))
  | .dot | .dots | .none => throw .entryExists

/-- Where a file is written that a path names. A link is followed, and what it
leads to need not exist. -/
def writable (top : Node) (path : String) : Except Fault Address := do
  match ← spot top .write path with
  | .vacant directory name => return directory ++ [name]
  | .taken address =>
      match top.get? address with
      | some (.directory _) => throw .isDirectory
      | _ => return address

/-- Write a file anew. -/
def writeBytes (path : String) (bytes : ByteArray) : Call Unit := do
  let address ← ask (writable · path)
  modify (Node.put address (.file bytes))

/-- Remove a file or a link. -/
def removeFile (path : String) : Call Unit := do
  let (address, node) ← ask (nodeItself · path)
  if node.isDirectory then throw .isDirectory
  modify (Node.erase address)

/-- Remove a directory without entries. -/
def removeDirectory (path : String) : Call Unit := do
  let (directory, ending) ← ask (splitLast · path)
  match ending with
  | .none => throw .busy
  | .dot => throw .invalidArgument
  | .dots => throw .notEmpty
  | .name name =>
      match (← get).get? (directory ++ [name]) with
      | none => throw .noEntry
      | some (.directory []) => modify (Node.erase (directory ++ [name]))
      | some (.directory _) => throw .notEmpty
      | some _ => throw .notDirectory

/-- Make a link. -/
def makeLink (path destination : String) : Call Unit := do
  let (directory, ending) ← ask (splitLast · path)
  match ending with
  | .name name =>
      if ((← get).get? (directory ++ [name])).isSome then throw .entryExists
      modify (Node.put (directory ++ [name]) (.link destination))
  | .dot | .dots | .none => throw .entryExists

/-- The fault, if any, that keeps a node from taking the place of another. -/
def replaceFault? (node other : Node) : Option Fault :=
  match node, other with
  | .directory _, .directory [] => none
  | .directory _, .directory _ => some .notEmpty
  | .directory _, _ => some .notDirectory
  | _, .directory _ => some .isDirectory
  | _, _ => none

/-- Move a node to another name, in place of what has that name. A directory
replaces only an empty one and does not move into itself. -/
def rename (source destination : String) : Call Unit := do
  if hasNul source || hasNul destination then throw .nulInPath
  let _ ← ask fun _ => (checked source).bind fun _ => checked destination
  let (fromDirectory, fromEnding) ← ask (splitLast · source)
  let (toDirectory, toEnding) ← ask (splitLast · destination)
  match fromEnding, toEnding with
  | .name fromName, .name toName =>
      if nameLimit < fromName.utf8ByteSize then throw .nameTooLong
      let top ← get
      let origin := fromDirectory ++ [fromName]
      match top.get? origin with
      | none => throw .noEntry
      | some node =>
          if nameLimit < toName.utf8ByteSize then throw .nameTooLong
          let place := toDirectory ++ [toName]
          if !node.isDirectory && (endsWithSlash source || endsWithSlash destination) then
            throw .notDirectory
          if origin.isPrefixOf toDirectory then throw .invalidArgument
          if place.isPrefixOf fromDirectory then throw .notEmpty
          if origin != place then
            match (top.get? place).bind (replaceFault? node) with
            | some fault => throw fault
            | none => modify fun top => Node.put place node (Node.erase origin top)
  | _, _ => throw .busy

/-! ## Several calls in a row -/

/-- Make the first of a row of directories, each of which is in the next. The
rows behind it are made where they are missing. -/
def makeFirst : List String → Call Unit
  | [] => throw .noEntry
  | path :: above => fun top =>
      match makeDirectory path top with
      | .ok _ made => .ok () made
      | .error .noEntry _ =>
          match makeFirst above top with
          | .error fault changed => .error fault changed
          | .ok _ changed =>
              match makeDirectory path changed with
              | .ok _ made => .ok () made
              | .error fault _ =>
                  if leadsToDirectory changed path then .ok () changed else .error fault changed
      | .error fault _ =>
          if leadsToDirectory top path then .ok () top else .error fault top

/-- Make a directory and the missing ones above it. -/
def makeDirectories (path : String) : Call Unit :=
  makeFirst (path :: parents path)

/-- Remove a directory with all that is in it. -/
def removeTree (path : String) : Call Unit := do
  let (address, _) ← ask (nodeItself · path)
  modify (Node.put address (.directory []))
  fun top =>
    match removeDirectory path top with
    | .error .noEntry changed => .ok () changed
    | result => result

/-- Copy a file. Its target is emptied before its bytes are read, so that a file
that is its own target ends up empty. -/
def copyFile (source destination : String) : Call Unit := do
  let (address, node) ← ask (nodeAt · source)
  if !node.isFile then throw .notRegularFile
  let place ← ask (writable · destination)
  modify (Node.put place (.file .empty))
  match (← get).get? address with
  | some (.file bytes) => modify (Node.put place (.file bytes))
  | _ => return ()

/-- Copy a directory with all that is in it when its turn comes, links as what
they lead to. -/
def copyTree (source destination : String) : Call Unit := do
  makeDirectories destination
  let entries ← ask (readDirectory · source)
  entries.forM fun (name, node) =>
    if node.isDirectory then
      if _shorter : source.utf8ByteSize < (join source name).utf8ByteSize ∧
          (join source name).utf8ByteSize < pathLimit then
        copyTree (join source name) (join destination name)
      else do
        makeDirectories (join destination name)
        throw .nameTooLong
    else copyFile (join source name) (join destination name)
termination_by pathLimit - source.utf8ByteSize

end ScriptView.Disk
