import Mathlib.Data.List.Forall2
import Mathlib.Data.List.Nodup
set_option autoImplicit false

/-! Demands that are served one after the other, each with the first element that is left. -/

namespace DigitalObjects.Lib

variable {R E κ : Type} [DecidableEq κ]

variable {fits : R → E → Bool} {key : E → κ} {live : List E}

/-- Every demand is served by one element of its own, none of them with a used key. -/
structure Serves (fits : R → E → Bool) (key : E → κ) (live : List E) (used : List κ) (rs : List R)
    (es : List E) : Prop where
  fits : List.Forall₂ (fun r e => fits r e = true) rs es
  live : ∀ e ∈ es, e ∈ live
  nodup : (es.map key).Nodup
  unused : ∀ e ∈ es, key e ∉ used

end DigitalObjects.Lib
