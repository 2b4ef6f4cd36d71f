import CloudPolicy.Maintenance.Command
import CloudPolicy.Proofs.Scan.Nodes
import CloudPolicy.Proofs.ScanRun
import CloudPolicy.Proofs.Schema

/-!
What it takes for fixtures to conform. A fixture that is named for it has to be refused; any other
one has to load, to have settings that a scan accepts, and to be reported at clean paths. Nothing
else counts: reports fit their schema and come out again, whatever they are about, and every fixture
is counted unless something is wrong with one.
-/

set_option autoImplicit false
set_option relaxedAutoImplicit false

namespace CloudPolicy

namespace FileTree

variable {t : FileTree} {names : List Bytes} {name : Bytes}

end FileTree

namespace Conformance

section Reports

variable {state : State} {text name : String} {s f s' f' : Timestamp} {r r' : Report} {v w : Json}

end Reports

/-! ### The settings of one fixture -/

section Settings

variable {tree : FileTree} {root name : String} {config : EffectiveConfig}

end Settings

/-! ### Judging -/

section Judging

variable {tree : FileTree} {root name text : String} {clock : Nat → Timestamp} {state : State}
  {tally tally' : Tally} {fixture : Bytes}

end Judging

end Conformance

namespace Maintenance

variable {tree : FileTree} {root : String} {clock : Nat → Timestamp}

end Maintenance

end CloudPolicy
