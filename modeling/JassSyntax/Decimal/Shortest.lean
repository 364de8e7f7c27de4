/-!
# Shortest decimals

A binary floating-point number stands for every real number that rounds to it. Its shortest decimal
is the one of fewest digits among those, and of several such the nearest. It is found by exact
arithmetic on natural numbers: the number lies between two neighbours on the grid of each power of
ten, and the first grid of which a neighbour rounds to the number gives the digits.
-/

namespace JassSyntax.Decimal

/-- The positive number `mantissa * 2 ^ exponent`, and whether the next smaller floating-point
number is only half as far away as the next larger one. -/
structure Binary where
  mantissa : Nat
  exponent : Int
  narrowBelow : Bool

/-- The number `digits * 10 ^ exponent`. -/
structure Scaled where
  digits : Nat
  exponent : Int
  deriving DecidableEq, Repr

/-- The positive part of an exponent. -/
def pos (e : Int) : Nat := e.toNat

/-- The negative part of an exponent. -/
def neg (e : Int) : Nat := (-e).toNat

/-- A quarter of the number in units of `10 ^ e / unit b e`. -/
def quarter (b : Binary) (e : Int) : Nat := Nat.pow 2 (pos (b.exponent - 2)) * Nat.pow 10 (neg e)

/-- How many of those units `10 ^ e` has. -/
def unit (b : Binary) (e : Int) : Nat := Nat.pow 2 (neg (b.exponent - 2)) * Nat.pow 10 (pos e)

/-- Whether `d * 10 ^ e` rounds to the number. The ends of the interval do for an even mantissa. -/
def roundsTo (b : Binary) (e : Int) (d : Nat) : Bool :=
  let x := d * unit b e
  let low := (4 * b.mantissa - (if b.narrowBelow then 1 else 2)) * quarter b e
  let high := (4 * b.mantissa + 2) * quarter b e
  if b.mantissa % 2 = 0 then low ≤ x ∧ x ≤ high else low < x ∧ x < high

/-- The neighbour on the grid of `10 ^ e` that rounds to the number, if one does. Of two the nearer
is taken, and on a tie the even one. -/
def neighbour? (b : Binary) (e : Int) : Option Nat :=
  let x := 4 * b.mantissa * quarter b e
  let below := x / unit b e
  let toBelow := x - below * unit b e
  let toAbove := (below + 1) * unit b e - x
  let aboveFirst := toAbove < toBelow ∨ (toAbove = toBelow ∧ below % 2 = 1)
  let order := if aboveFirst then [below + 1, below] else [below, below + 1]
  order.find? (roundsTo b e)

/-- How many decimal digits a natural number has. -/
def digitCount (n : Nat) : Nat := (Nat.toDigits 10 n).length

/-- A bound of the number's decimal exponent from above. -/
def topExponent (b : Binary) : Int :=
  (digitCount (b.mantissa * Nat.pow 2 (pos b.exponent)) : Int) - (neg b.exponent * 3 / 10 : Nat)

/-- The neighbour on the coarsest of the next `fuel` grids that has one. -/
def search (b : Binary) : Nat → Int → Scaled
  | 0, e => ⟨4 * b.mantissa * quarter b e / unit b e, e⟩
  | fuel + 1, e =>
    match neighbour? b e with
    | some (d + 1) => ⟨d + 1, e⟩
    | _ => search b fuel (e - 1)

/-- The shortest decimal of a positive number. Seventeen digits always suffice. -/
def shortest (b : Binary) : Scaled :=
  search b 20 (topExponent b)

/-- The leading bit of a mantissa, which is not written. -/
def hiddenBit : Nat := 0x10000000000000

/-- The bit of the sign. -/
def signBit : Nat := 0x8000000000000000

/-- A positive finite number by its sixty-four bits, sign aside. -/
def Binary.ofBits (bits : Nat) : Binary :=
  let fraction := bits % hiddenBit
  let field := bits / hiddenBit % 0x800
  if field = 0 then ⟨fraction, -1074, false⟩
  else ⟨hiddenBit + fraction, (field : Int) - 1075, fraction = 0 ∧ 1 < field⟩

/-- The least decimal exponent of a first digit that is written with a leading zero. -/
def leastPositional : Int := -5

/-- The least decimal exponent of a first digit that is written apart. -/
def leastScientific : Int := 16

/-- A positive decimal: as a plain fraction with at least one digit on each side of the point where
the exponent of its first digit is moderate, and else with that exponent apart and signed. -/
def Scaled.text (s : Scaled) : String :=
  let digits := Nat.toDigits 10 s.digits
  let first := s.exponent + digits.length - 1
  let zeros n := List.replicate n '0'
  let chars :=
    if leastPositional ≤ first ∧ first < leastScientific then
      if 0 ≤ s.exponent then digits ++ zeros (pos s.exponent) ++ ['.', '0']
      else if 0 ≤ first then
        digits.take (pos first + 1) ++ '.' :: digits.drop (pos first + 1)
      else '0' :: '.' :: zeros (neg first - 1) ++ digits
    else
      let tail := digits.drop 1
      let exponent := Nat.toDigits 10 first.natAbs
      digits.take 1 ++ (if tail.isEmpty then [] else '.' :: tail)
        ++ 'e' :: (if first < 0 then '-' else '+') :: exponent
  String.ofList chars

/-- The text of a finite floating-point number: the shortest decimal that rounds to it. -/
def text (x : Float) : String :=
  let bits := x.toBits.toNat
  let sign := if signBit ≤ bits then "-" else ""
  let magnitude := bits % signBit
  sign ++ if magnitude = 0 then "0.0" else (shortest (.ofBits magnitude)).text

end JassSyntax.Decimal
