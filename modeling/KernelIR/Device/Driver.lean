/-!
# Device drivers

A driver loads modules of device code, finds entry points in them and launches these. What it calls a
module or a function is its own affair, and so is its state; every call may fail, with a text, and
may change the state whether it fails or not.
-/

namespace KernelIR

/-- The extent of a launch in one dimension. -/
structure LaunchSize where
  grid : UInt32
  block : UInt32
deriving DecidableEq, Repr

/-- The argument buffer of a launch; `none` is the null address. -/
abbrev Arguments := Option (List UInt8)

/-- The calls that a driver answers. -/
structure Driver (δ μ φ : Type) where
  load : δ → String → Except String μ × δ
  resolve : δ → μ → String → Except String φ × δ
  launch : δ → φ → Arguments → LaunchSize → Except String Unit × δ
  unload : δ → μ → Except String Unit × δ

end KernelIR
