/-!
# Shortest decimals

A positive binary number `m · 2 ^ q` stands for every real that rounds to it: those between half a
step below and half a step above. Among the decimals in that interval this module picks one with the
fewest digits, and of those the nearest to `m · 2 ^ q`; of two equally near ones it takes the larger.
All arithmetic is exact, on natural numbers over a common denominator.
-/

namespace KernelIR

/-- The decimal number `digits · 10 ^ exponent`. -/
structure Decimal where
  digits : Nat
  exponent : Int
deriving DecidableEq, Repr

namespace Decimal

/-- A value between its two neighbouring halfway points, as numerators over one denominator. -/
structure Interval where
  low : Nat
  value : Nat
  high : Nat
  denominator : Nat
  /-- Whether the end points belong to the interval. -/
  closed : Bool
deriving Repr

/-- The reals that round to `m · 2 ^ q`. Ties go to even significands, so the ends belong to the
interval exactly if `m` is even. Below a power of two the steps are half as wide, which `narrow`
says. -/
def Interval.ofBinary (m : Nat) (q : Int) (narrow : Bool) : Interval :=
  let scale := Nat.pow 2 (q - 2).toNat
  { low := (4 * m - if narrow then 1 else 2) * scale
    value := 4 * m * scale
    high := (4 * m + 2) * scale
    denominator := Nat.pow 2 (2 - q).toNat
    closed := m % 2 == 0 }

/-- The interval in units of `10 ^ e`. -/
def Interval.inUnits (i : Interval) (e : Int) : Interval :=
  let up := Nat.pow 10 (-e).toNat
  { i with
    low := i.low * up
    value := i.value * up
    high := i.high * up
    denominator := i.denominator * Nat.pow 10 e.toNat }

/-- Whether a whole number of units lies in the interval. -/
def Interval.holds (i : Interval) (n : Nat) : Bool :=
  let x := n * i.denominator
  if i.closed then i.low ≤ x && x ≤ i.high else i.low < x && x < i.high

/-- Of the two whole numbers beside the value, the nearer one that the interval holds. -/
def Interval.nearest? (i : Interval) : Option Nat :=
  let below := i.value / i.denominator
  let upper := 2 * (i.value % i.denominator) ≥ i.denominator
  match i.holds below, i.holds (below + 1) with
  | true, true => some (if upper then below + 1 else below)
  | true, false => some below
  | false, true => some (below + 1)
  | false, false => none

/-- The least `j < fuel` with `value · 10 ^ j ≥ denominator`. -/
def Interval.leadingZeros (i : Interval) : Nat → Nat → Nat
  | 0, j => j
  | fuel + 1, j =>
    if i.value * Nat.pow 10 j ≥ i.denominator then j else i.leadingZeros fuel (j + 1)

/-- The `k` with `10 ^ (k - 1) ≤ value < 10 ^ k`. -/
def Interval.magnitude (i : Interval) : Int :=
  if i.value ≥ i.denominator then
    (Nat.toDigits 10 (i.value / i.denominator)).length
  else
    1 - (i.leadingZeros (i.denominator.log2 + 1) 0 : Int)

/-- The first grid of `n`, `n + 1`, … digits that meets the interval gives the decimal. -/
def Interval.search (i : Interval) (magnitude : Int) : Nat → Nat → Option Decimal
  | 0, _ => none
  | fuel + 1, n =>
    match (i.inUnits (magnitude - n)).nearest? with
    | some digits => some ⟨digits, magnitude - n⟩
    | none => i.search magnitude fuel (n + 1)

/-- Moves trailing zeros of the digits into the exponent. -/
def dropZeros : Nat → Decimal → Decimal
  | 0, d => d
  | fuel + 1, d =>
    if d.digits ≠ 0 ∧ d.digits % 10 = 0 then dropZeros fuel ⟨d.digits / 10, d.exponent + 1⟩ else d

/-- The shortest decimal that rounds to `m · 2 ^ q`, for `0 < m < 2 ^ 53`: seventeen digits always
suffice. -/
def shortest (m : Nat) (q : Int) (narrow : Bool) : Decimal :=
  let i := Interval.ofBinary m q narrow
  dropZeros 17 ((i.search i.magnitude 17 1).getD ⟨0, 0⟩)

/-- The digits as text. -/
def digitText (d : Decimal) : List Char :=
  Nat.toDigits 10 d.digits

/-- How many digits stand before the point in positional notation; negative if zeros follow it. -/
def pointAfter (d : Decimal) : Int :=
  d.digitText.length + d.exponent

/-- Positional notation, with at least one digit on each side of the point. -/
def positional (d : Decimal) : String :=
  let ds := d.digitText
  let point := d.pointAfter
  if point ≤ 0 then
    "0." ++ String.ofList (List.replicate (-point).toNat '0' ++ ds)
  else if d.exponent ≥ 0 then
    String.ofList (ds ++ List.replicate d.exponent.toNat '0') ++ ".0"
  else
    String.ofList (ds.take point.toNat) ++ "." ++ String.ofList (ds.drop point.toNat)

/-- Scientific notation: one digit before the point, the point only if digits follow it. -/
def scientific (d : Decimal) : String :=
  let power := toString (d.pointAfter - 1)
  match d.digitText with
  | [] => "0e0"
  | [c] => String.singleton c ++ "e" ++ power
  | c :: rest => String.singleton c ++ "." ++ String.ofList rest ++ "e" ++ power

end Decimal

end KernelIR
