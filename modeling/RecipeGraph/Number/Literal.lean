/-!
Reading number literals.

A literal with a point or an exponent, or one beyond 64 bits, is read as a
binary64 number from two whole parts. The significand keeps leading digits as
long as it stays below `2^64`; a later digit before the point counts as a
factor of ten and a later digit behind it is dropped. The float nearest to the
significand is then multiplied or divided once by the float nearest to the
power of ten, so the result can be off by one place from the nearest float.
-/

namespace RecipeGraph.Number

/-- A literal split at the point and the exponent mark. `fraction` is `none`
without a point, `exponent` without a mark. -/
structure Literal where
  isNegative : Bool
  whole : List Nat
  fraction : Option (List Nat)
  exponent : Option Int

/-- Numbers of documents: integers of 64 bits, signed or not, stay integers. -/
inductive Numeral where
  | int (value : Int)
  | float (value : Float)
deriving BEq, Repr, Inhabited

/-- A significand below `2^64` with its power of ten. -/
structure Significand where
  value : Nat
  power : Int

def limit : Nat := Nat.pow 2 64

/-- Counts are kept modulo `2^64`. -/
def wrap (n : Nat) : Nat := n % limit

/-- Digits before the point, and whether they all fit. -/
def takeWhole : List Nat → Nat → Nat × List Nat
  | [], value => (value, [])
  | digit :: rest, value =>
    if value * 10 + digit < limit then takeWhole rest (value * 10 + digit)
    else (value, digit :: rest)

/-- Digits behind the point, up to the first that does not fit. -/
def takeFraction : List Nat → Significand → Significand
  | [], s => s
  | digit :: rest, s =>
    if s.value * 10 + digit < limit then
      takeFraction rest ⟨s.value * 10 + digit, s.power - 1⟩
    else s

def powerOfTen (n : Nat) : Float :=
  Float.ofScientific 1 false n

/-- Divides by a power of ten, in steps where the power itself is no float. -/
def divided (x : Float) (n : Nat) : Float :=
  if n ≤ 308 then x / powerOfTen n
  else if x == 0.0 then x
  else divided (x / powerOfTen 308) (n - 308)
termination_by n

/-- The float of a significand; `none` if it is too large for a float. -/
def Significand.toFloat? (s : Significand) : Option Float :=
  let x := s.value.toUInt64.toFloat
  if s.power < 0 then some (divided x (-s.power).toNat)
  else if 308 < s.power then if x == 0.0 then some x else none
  else
    let product := x * powerOfTen s.power.toNat
    if product.isInf then none else some product

def withSign (isNegative : Bool) (x : Float) : Float :=
  if isNegative then -x else x

/-- An integer read as a float: the nearest, ties to even. -/
def ofInt (i : Int) : Float :=
  withSign (i < 0) i.natAbs.toUInt64.toFloat

/-- The number of a literal; `none` if it is too large for a float. Minus zero
and integers outside 64 bits are floats. -/
def Literal.numeral? (l : Literal) : Option Numeral :=
  let (value, excess) := takeWhole l.whole 0
  match l.fraction, l.exponent, excess with
  | none, none, [] =>
    if !l.isNegative then some (.int value)
    else if value = 0 || Nat.pow 2 63 < value then
      some (.float (-value.toUInt64.toFloat))
    else some (.int (-value))
  | fraction, exponent, excess =>
    let s := takeFraction (fraction.getD []) ⟨value, excess.length⟩
    (Significand.toFloat? ⟨s.value, s.power + exponent.getD 0⟩).map
      fun x => .float (withSign l.isNegative x)

end RecipeGraph.Number
