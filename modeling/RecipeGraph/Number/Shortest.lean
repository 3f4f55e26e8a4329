/-!
The fewest decimal digits that read back as a given binary64 number.

A positive number `m · 2^e` owns the interval of reals that round to it, ends
included exactly when `m` is even. A grid of decimals `c · 10^t` is tried from
coarse to fine; on each only the two grid points around the number can lie in
the interval. The first grid with a hit gives the fewest digits, and of two
hits the nearer one is taken. Two hits may be equally near: `2^-25` lies midway
between `2.9802322387695312e-8` and `2.9802322387695313e-8`. A `Tie` settles it.
-/

namespace RecipeGraph.Number

/-- A positive number `mantissa · 2^exponent`. The lower neighbour is only half
as far away as the upper one when the mantissa starts a new binade. -/
structure Binary where
  mantissa : Nat
  exponent : Int
  startsBinade : Bool
deriving Repr, DecidableEq

/-- Magnitude of the number with these bits, the sign left out. -/
def Binary.ofBits (bits : UInt64) : Binary :=
  let fraction := bits.toNat % Nat.pow 2 52
  let biased : Nat := bits.toNat / Nat.pow 2 52 % Nat.pow 2 11
  if biased = 0 then ⟨fraction, -1074, false⟩
  else ⟨Nat.pow 2 52 + fraction, Int.ofNat biased - 1075, fraction = 0 && 1 < biased⟩

/-- The number `digits · 10^exponent`. -/
structure Decimal where
  digits : Nat
  exponent : Int
deriving Repr, DecidableEq

/-- Which of two neighbouring grid points equally near to a number is taken. -/
inductive Tie where
  | toEven
  | awayFromZero
deriving DecidableEq, Repr

/-- Whether the point below is taken, given its digits. -/
def Tie.takesBelow : Tie → Nat → Bool
  | .toEven, below => below % 2 = 0
  | .awayFromZero, _ => false

namespace Binary

/-- Whether `10^t` is at most the number. -/
def reaches (b : Binary) (t : Int) : Bool :=
  Nat.pow 2 (-b.exponent).toNat * Nat.pow 10 t.toNat ≤
    b.mantissa * Nat.pow 2 b.exponent.toNat * Nat.pow 10 (-t).toNat

/-- Exponent of the greatest power of ten that is at most the number. The
estimate from the binary logarithm is low by at most three. -/
def magnitude (b : Binary) : Int :=
  let estimate := ((b.mantissa.log2 : Int) + b.exponent) * 30103 / 100000 - 1
  if b.reaches (estimate + 3) then estimate + 3
  else if b.reaches (estimate + 2) then estimate + 2
  else if b.reaches (estimate + 1) then estimate + 1
  else estimate

/-- The point of the grid `c · 10^t` that reads back as the number, if any; of
two such points the nearer. All quantities are scaled to whole numbers of a
quarter of the last binary place. -/
def onGrid (b : Binary) (tie : Tie) (t : Int) : Option Nat :=
  let up := Nat.pow 2 (b.exponent - 2).toNat * Nat.pow 10 (-t).toNat
  let step := Nat.pow 2 (2 - b.exponent).toNat * Nat.pow 10 t.toNat
  let value := 4 * b.mantissa * up
  let low := (4 * b.mantissa - if b.startsBinade then 1 else 2) * up
  let high := (4 * b.mantissa + 2) * up
  let inside := fun point =>
    if b.mantissa % 2 = 0 then low ≤ point && point ≤ high
    else low < point && point < high
  let below := value / step
  let above := below + 1
  let shortBy := value - below * step
  let longBy := above * step - value
  match inside (below * step), inside (above * step) with
  | true, true =>
    some (if shortBy < longBy || shortBy = longBy && tie.takesBelow below then below else above)
  | true, false => some below
  | false, true => some above
  | false, false => none

end Binary

/-- Moves zeros at the end of the digits into the exponent. -/
def Decimal.strip (d : Decimal) : Decimal :=
  if _h : d.digits ≠ 0 ∧ d.digits % 10 = 0 then
    Decimal.strip ⟨d.digits / 10, d.exponent + 1⟩
  else d
termination_by d.digits
decreasing_by omega

/-- Seventeen digits always suffice. -/
def Binary.shortest (b : Binary) (tie : Tie) : Decimal :=
  let top := b.magnitude
  match (List.range 17).findSome? fun (places : Nat) =>
      (b.onGrid tie (top - places)).map fun c => Decimal.mk c (top - places) with
  | some d => d.strip
  | none => ⟨0, 0⟩

end RecipeGraph.Number
