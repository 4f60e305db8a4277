import ScriptView.Text.Quoted

/-!
# Errors

Why an operation on files fails, and how each failure is worded. A fault is
what a file system reports without saying for which path; an error is what an
operation answers.
-/

namespace ScriptView

/-- What a file system reports when it refuses a call. -/
inductive Fault where
  | noEntry
  | busy
  | entryExists
  | notDirectory
  | isDirectory
  | invalidArgument
  | nameTooLong
  | notEmpty
  | tooManyLinks
  | nulInPath
  | notUtf8
  | notRegularFile
  | copyIntoItself (source target : String)
  deriving DecidableEq, Repr

namespace Fault

/-- The number and the text that the operating system has for a fault. -/
def system? : Fault → Option (Nat × String)
  | .noEntry => some (2, "No such file or directory")
  | .busy => some (16, "Device or resource busy")
  | .entryExists => some (17, "File exists")
  | .notDirectory => some (20, "Not a directory")
  | .isDirectory => some (21, "Is a directory")
  | .invalidArgument => some (22, "Invalid argument")
  | .nameTooLong => some (36, "File name too long")
  | .notEmpty => some (39, "Directory not empty")
  | .tooManyLinks => some (40, "Too many levels of symbolic links")
  | .nulInPath | .notUtf8 | .notRegularFile | .copyIntoItself _ _ => none

/-- The wording of a fault that the operating system has no number for. -/
def ownMessage : Fault → String
  | .nulInPath => "file name contained an unexpected NUL byte"
  | .notUtf8 => "stream did not contain valid UTF-8"
  | .notRegularFile => "the source path is neither a regular file nor a symlink to a regular file"
  | .copyIntoItself source target => s!"cannot copy {source} into itself at {target}"
  | _ => ""

/-- The wording of a fault. -/
def message (fault : Fault) : String :=
  match fault.system? with
  | some (number, text) => s!"{text} (os error {number})"
  | none => fault.ownMessage

end Fault

/-- What is wrong with an extension. -/
inductive ExtensionFlaw where
  | noLeadingDot (text : String)
  | separator (text : String)
  deriving DecidableEq, Repr

/-- The wording of a flaw. The extension is quoted. -/
def ExtensionFlaw.message : ExtensionFlaw → String
  | .noLeadingDot text =>
      let shown := Text.quoted text
      s!"extension must start with '.': {shown}"
  | .separator text =>
      let shown := Text.quoted text
      s!"extension must not contain a path separator: {shown}"

/-- Why an operation fails. -/
inductive Error where
  | fileNotFound (path : String)
  | directoryNotFound (path : String)
  | alreadyExists (path : String)
  | notAFile (path : String)
  | missingScriptBlock (path : String)
  | invalidUtf8 (path : String)
  | invalidConfig (flaw : ExtensionFlaw)
  | io (fault : Fault)
  | json
  deriving DecidableEq, Repr

namespace Error

/-- The wording of an error. -/
def message : Error → String
  | .fileNotFound path => s!"File not found: {path}"
  | .directoryNotFound path => s!"Directory not found: {path}"
  | .alreadyExists path => s!"Already exists: {path}"
  | .notAFile path => s!"Not a file: {path}"
  | .missingScriptBlock path => s!"Cannot write to Vue file: No script block found in {path}"
  | .invalidUtf8 path => s!"File is not valid UTF-8: {path}"
  | .invalidConfig flaw =>
      let reason := flaw.message
      s!"Invalid config: {reason}"
  | .io fault =>
      let reason := fault.message
      s!"I/O error: {reason}"
  | .json => "JSON error"

/-- The error for a fault met at the path of a file. -/
def ofFileFault (path : String) : Fault → Error
  | .noEntry => .fileNotFound path
  | .entryExists => .alreadyExists path
  | .notUtf8 => .invalidUtf8 path
  | fault => .io fault

/-- The error for a fault met at the path of a directory. -/
def ofDirectoryFault (path : String) : Fault → Error
  | .noEntry => .directoryNotFound path
  | fault => .io fault

end Error

end ScriptView
