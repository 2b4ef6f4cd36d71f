/-!
Which log lines are shown when nothing else is asked for.
-/

set_option autoImplicit false
set_option relaxedAutoImplicit false

namespace CloudPolicy.Logging

def defaultFilter (verbose : Bool) : String :=
  if verbose then "infraguard_app=debug,infraguard_domain=debug"
  else "infraguard_app=info,infraguard_domain=warn"

end CloudPolicy.Logging
