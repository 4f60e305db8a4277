/-!
# Paths on a disk

A path on a disk is a text whose segments are separated by slashes; a backslash
is an ordinary character. Joining and taking the parent work on the text alone
and leave dot segments in the middle of a path as they are.
-/

namespace ScriptView.Disk

/-- The segments of a path. The first one of an absolute path is empty. -/
def segments (path : String) : List String :=
  split path.toList |>.map String.ofList
where
  /-- What slashes separate. -/
  split : List Char → List (List Char)
    | [] => [[]]
    | c :: rest =>
        if c = '/' then [] :: split rest
        else
          match split rest with
          | [] => [[c]]
          | first :: others => (c :: first) :: others

/-- The path with the given segments. -/
def ofSegments (segments : List String) : String :=
  String.intercalate "/" segments

/-- Whether a path starts at the top of the disk. -/
def isAbsolute (path : String) : Bool :=
  path.toList.head? == some '/'

/-- Whether a path ends with a slash. -/
def endsWithSlash (path : String) : Bool :=
  path.toList.getLast? == some '/'

/-- The path of something in a directory. An absolute path is not in it. -/
def join (directory path : String) : String :=
  if isAbsolute path then path
  else if endsWithSlash directory then directory ++ path
  else directory ++ "/" ++ path

/-- Whether a segment leads nowhere. -/
def isVoid (segment : String) : Bool :=
  segment == "" || segment == "."

/-- The paths of the directories above, from the nearest to the top, given the
segments behind the leading slash in reverse. -/
def parentsOf : List String → List String
  | [] => []
  | segment :: above =>
      if isVoid segment then parentsOf above
      else ("/" ++ ofSegments (above.dropWhile isVoid).reverse) :: parentsOf above

/-- The paths of the directories above an absolute path, the nearest first. -/
def parents (path : String) : List String :=
  parentsOf (segments path).tail.reverse

/-- The path of the directory that the end of an absolute path is in. -/
def parent? (path : String) : Option String :=
  (parents path).head?

end ScriptView.Disk
