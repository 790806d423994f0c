/-! # Rounding to the nearest

Rational numbers rounded to integers and to binary floating-point formats. A format is given by the
number of binary digits it keeps and by the place of its least digit. Rounding to a format goes to
the nearest number with that many digits, and a tie to the one whose last digit is even. -/

namespace VectorizedSort

/-- The nearest integer, of two equally near ones the even one. -/
def nearestEven (x : Rat) : Int :=
  let below := x.floor
  let rest := x - below
  if rest < 1 / 2 then below
  else if 1 / 2 < rest then below + 1
  else if below % 2 = 0 then below else below + 1

/-- The nearest integer, of two equally near ones the one farther from zero. -/
def nearestAway (x : Rat) : Int :=
  if 0 ≤ x then (x + 1 / 2).floor else -(1 / 2 - x).floor

/-- A power of two with any integer exponent. -/
def twoPow (k : Int) : Rat :=
  if 0 ≤ k then (Nat.pow 2 k.toNat : Nat) else 1 / (Nat.pow 2 (-k).toNat : Nat)

/-- The exponent of the highest binary digit of a number other than zero. -/
def highestPlace (x : Rat) : Int :=
  let guess : Int := (x.num.natAbs.log2 : Int) - x.den.log2
  if (if x < 0 then -x else x) < twoPow guess then guess - 1 else guess

/-- A binary floating-point format. How large its numbers get is left open. -/
structure BinaryFormat where
  /-- The number of binary digits. -/
  precision : Nat
  /-- The exponent of the least digit of the smallest numbers. -/
  leastPlace : Int

namespace BinaryFormat

/-- The format of 32-bit floats. -/
def single : BinaryFormat := ⟨24, -149⟩

/-- The format of 64-bit floats. -/
def double : BinaryFormat := ⟨53, -1074⟩

/-- The exponent of the last digit that the format keeps of a number. -/
def lastPlace (format : BinaryFormat) (x : Rat) : Int :=
  max (highestPlace x - (format.precision - 1)) format.leastPlace

/-- The nearest number of a format. -/
def nearest (format : BinaryFormat) (x : Rat) : Rat :=
  let unit := twoPow (format.lastPlace x)
  nearestEven (x / unit) * unit

end BinaryFormat

end VectorizedSort
