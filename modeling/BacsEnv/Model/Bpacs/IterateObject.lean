import BacsEnv.Library.InPlace
import BacsEnv.Model.Bpacs.Registry

/-!
# `bpacs::iterate_object` in place

`iterate_object(object, fn)` calls `fn` with each visited field of an object. Here `fn` works on
`field.value()`, a member of the object itself, and an exception of `fn` leaves the object as it
is by then.
-/

set_option autoImplicit false

namespace BacsEnv.Bpacs

open InPlace

variable {ε σ Holder : Type} {Ty : Type → Type 1}

/-- `bpacs::iterate_object`, with what `fn` does to `field.value()`. -/
def iterateObject (registry : Registry Ty Holder)
    (fn : (field : FieldMeta Ty Holder) → Into ε σ field.α Unit) : Into ε σ Holder Unit :=
  forM registry.iterateFields fun field =>
    through field.member.get field.member.set (fn field)

end BacsEnv.Bpacs
