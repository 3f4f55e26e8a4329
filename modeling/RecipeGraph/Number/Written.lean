import RecipeGraph.Number.Shortest

/-!
Written forms of binary64 numbers. Both start from the fewest digits that read
back; they differ in where a decimal point or an exponent is put, and in which
of two equally near decimals is taken.
-/

namespace RecipeGraph.Number

def zeros (n : Nat) : List Char :=
  List.replicate n '0'

def negative (x : Float) : Bool :=
  Nat.pow 2 63 ≤ x.toBits.toNat

/-- Digits with a point and as many zeros as needed, never an exponent. -/
def positional (d : Decimal) : List Char :=
  let digits := (toString d.digits).toList
  let whole := (digits.length : Int) + d.exponent
  if 0 ≤ d.exponent then digits ++ zeros d.exponent.toNat
  else if 0 < whole then digits.take whole.toNat ++ '.' :: digits.drop whole.toNat
  else '0' :: '.' :: zeros (-whole).toNat ++ digits

/-- A power of ten with its sign, such as `e+16` or `e-7`. -/
def powerMark (power : Int) : List Char :=
  'e' :: (if power < 0 then [] else ['+']) ++ (toString power).toList

/-- One digit, the others after a point, and the power of ten. -/
def scientific (d : Decimal) : List Char :=
  let digits := (toString d.digits).toList
  let power := (digits.length : Int) + d.exponent - 1
  let mantissa := match digits with
    | first :: second :: rest => first :: '.' :: second :: rest
    | short => short
  mantissa ++ powerMark power

/-- Where a number is written with an exponent. A number below `10^highest`
and from `10^lowest` on is positional. -/
structure Style where
  lowest : Int
  highest : Int
  /-- Whether a whole number ends in `.0`. -/
  marksWhole : Bool

/-- Numbers in messages and documents: positional from `0.00001` up to sixteen
places before the point, and always told apart from integers. -/
def Style.document : Style :=
  ⟨-5, 16, true⟩

def unsigned (style : Style) (d : Decimal) : List Char :=
  let places := ((toString d.digits).length : Int) + d.exponent
  if style.lowest < places && places ≤ style.highest then
    positional d ++ if style.marksWhole && 0 ≤ d.exponent then ['.', '0'] else []
  else scientific d

def magnitudeOf (tie : Tie) (x : Float) : Decimal :=
  if x == 0.0 then ⟨0, 0⟩ else (Binary.ofBits x.toBits).shortest tie

def signed (x : Float) (text : List Char) : String :=
  String.ofList (if negative x then '-' :: text else text)

/-- The text of a finite number in a document, such as `3.0` or `1e+300`. -/
def written (x : Float) : String :=
  signed x (unsigned .document (magnitudeOf .toEven x))

/-- The text of a finite number in plain decimal, such as `1` or `0.0000001`. -/
def plain (x : Float) : String :=
  signed x (positional (magnitudeOf .awayFromZero x))

end RecipeGraph.Number
