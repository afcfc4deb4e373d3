import KernelIR.Decimal.Shortest

/-!
# Binary floating point as bit patterns

Constants of the two floating types are held as the 64 bits of a double. This module reads such a
pattern, widens the 32 bits of a single to it without loss, and writes it in the notation of the
listing: positional from `1e-4` up to `1e16`, scientific elsewhere.
-/

namespace KernelIR

/-- What the 64 bits of a double say. -/
inductive Binary64 where
  | notANumber
  | infinite (negative : Bool)
  | zero (negative : Bool)
  /-- The number `± significand · 2 ^ exponent`; `narrow` holds where the step below it is half as
  wide as the step above. -/
  | finite (negative : Bool) (significand : Nat) (exponent : Int) (narrow : Bool)
deriving DecidableEq, Repr

namespace Binary64

/-- Splits a pattern into sign, eleven bits of exponent and fifty-two of fraction. -/
def ofBits (bits : UInt64) : Binary64 :=
  let n := bits.toNat
  let negative := n / Nat.pow 2 63 == 1
  let exponent : Nat := n / Nat.pow 2 52 % Nat.pow 2 11
  let fraction := n % Nat.pow 2 52
  if exponent = 2047 then
    if fraction = 0 then .infinite negative else .notANumber
  else if exponent = 0 then
    if fraction = 0 then .zero negative else .finite negative fraction (-1074) false
  else
    .finite negative (Nat.pow 2 52 + fraction) ((exponent : Int) - 1075)
      (fraction == 0 && exponent > 1)

/-- The notation of the listing. Numbers below `1e-4` or from `1e16` on are written
scientifically. -/
def text : Binary64 → String
  | .notANumber => "NaN"
  | .infinite negative => if negative then "-inf" else "inf"
  | .zero negative => if negative then "-0.0" else "0.0"
  | .finite negative m q narrow =>
    let d := Decimal.shortest m q narrow
    let body := if -3 ≤ d.pointAfter ∧ d.pointAfter ≤ 16 then d.positional else d.scientific
    if negative then "-" ++ body else body

end Binary64

/-- The double with the value of a single. A single that is not a number keeps its sign and payload
and becomes quiet. -/
def widenSingle (bits : UInt32) : UInt64 :=
  let n := bits.toNat
  let sign := n / Nat.pow 2 31 * Nat.pow 2 63
  let exponent := n / Nat.pow 2 23 % Nat.pow 2 8
  let fraction := n % Nat.pow 2 23
  let rest :=
    if exponent = 255 then
      2047 * Nat.pow 2 52 +
        (if fraction = 0 then 0 else Nat.pow 2 51 + fraction % Nat.pow 2 22 * Nat.pow 2 29)
    else if exponent = 0 then
      if fraction = 0 then 0
      else
        let top := fraction.log2
        (top + 874) * Nat.pow 2 52 + (fraction - Nat.pow 2 top) * Nat.pow 2 (52 - top)
    else
      (exponent + 896) * Nat.pow 2 52 + fraction * Nat.pow 2 29
  UInt64.ofNat (sign + rest)

end KernelIR
