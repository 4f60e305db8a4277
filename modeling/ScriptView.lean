import ScriptView.Mapping.File
import ScriptView.Proofs.Component.Grammar.Attributes
import ScriptView.Proofs.Component.Grammar.Nesting
import ScriptView.Proofs.Component.Saving
import ScriptView.Proofs.Disk.Entered
import ScriptView.Proofs.Disk.OwnSubtree
import ScriptView.Proofs.Disk.Refused
import ScriptView.Proofs.Disk.SelfCopy
import ScriptView.Proofs.Disk.Targets
import ScriptView.Proofs.Memory.Apart
import ScriptView.Proofs.Memory.Nested.Session
import ScriptView.Proofs.Memory.Relative
import ScriptView.Proofs.View.Directory
import ScriptView.Proofs.View.LastWrite
import ScriptView.Proofs.View.Listing
import ScriptView.Proofs.View.Racing
import ScriptView.Proofs.View.Twice
import ScriptView.Proofs.Glob.Groups
import ScriptView.Proofs.Glob.Escaped
import ScriptView.Proofs.Glob.Start
import ScriptView.Proofs.Location.Composition
import ScriptView.Proofs.Component.Positions
import ScriptView.Proofs.Mapping.Directory
import ScriptView.Proofs.Json.Token
import ScriptView.Proofs.Json.Value
import ScriptView.Proofs.Memory.Seeding
import ScriptView.Proofs.Memory.Walk
import ScriptView.Proofs.Mapping.Json
import ScriptView.Proofs.Mapping.Sharing
