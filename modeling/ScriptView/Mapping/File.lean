import ScriptView.Disk.Call
import ScriptView.Mapping.Json

/-!
# Mappings in files

A mapping is loaded from a file on a disk that holds it as JSON.
-/

namespace ScriptView.Mapping

/-- Load and validate the mapping in a file. -/
def load (top : Disk.Node) (path : String) : Except Error Mapping :=
  match Disk.readText top path with
  | .ok text => ofJson text
  | .error fault => .error (.ofFileFault path fault)

end ScriptView.Mapping
