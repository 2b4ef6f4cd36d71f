import CloudPolicy.Proofs.Json.Paths

/-!
What the mask of a report document hides. A document loses the values of its times, at any depth,
and the version of the tool if it is an envelope itself; whatever stands elsewhere is left as it is.
So two documents have the same mask exactly if they are alike but for these fields.
-/

set_option autoImplicit false
set_option relaxedAutoImplicit false

namespace CloudPolicy.Mask

open Json

/-- What a volatile field shows. -/
def cover (k : String) : Json := if timeKeys.contains k then timeMask else versionMask

section Lookup

variable {ms : List (String × Json)} {k : String}

end Lookup

/-! ### Times -/

section Times

variable {v : Json} {p : Path} {k : String}

end Times

/-! ### The version -/

section Version

variable {v : Json} {p : Path} {k : String} {ms : List (String × Json)}

end Version

/-! ### The mask -/

section Mask

variable {v w : Json} {p : Path} {k : String}

variable {equal : Json → Json → Prop}

mutual

private theorem times_times : ∀ v, times (times v) = times v
  | .array vs => congrArg Json.array (timesOfItems_twice vs)
  | .object ms => congrArg Json.object (timesOfMembers_twice ms)
  | .null | .bool _ | .integer _ | .decimal _ _ _ | .string _ | .unreadable => rfl

private theorem timesOfItems_twice : ∀ vs, timesOfItems (timesOfItems vs) = timesOfItems vs
  | [] => rfl
  | v :: vs => by rw [timesOfItems, timesOfItems, times_times v, timesOfItems_twice vs]

private theorem timesOfMembers_twice : ∀ ms, timesOfMembers (timesOfMembers ms) = timesOfMembers ms
  | [] => rfl
  | (k, v) :: ms => by
    rw [timesOfMembers, timesOfMembers, timesOfMembers_twice ms]
    split
    · rfl
    · rw [times_times v]

end

end Mask

end CloudPolicy.Mask
