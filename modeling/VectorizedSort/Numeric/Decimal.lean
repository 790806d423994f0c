import VectorizedSort.Numeric.Nearest

/-! # Reading decimals

A decimal number read into a binary floating-point format by scaling: its digits are rounded to the
format as an integer, a power of ten is rounded to the format, and so is the product or the quotient
of the two. The result is the number itself where all three are exact and the nearest one where only
the last is not; longer decimals may end one place off. -/

namespace VectorizedSort

/-- The leading decimal digits of a number that fit into a 64-bit word, and how many are left. -/
def leadingDigits (n : Nat) : Nat × Nat :=
  if n < UInt64.size then (n, 0)
  else
    let (digits, left) := leadingDigits (n / 10)
    (digits, left + 1)
termination_by n
decreasing_by
  have : 0 < UInt64.size := by decide
  omega

namespace BinaryFormat

/-- The largest power of ten that a scaling takes at once. -/
def greatestScale : Nat := 308

/-- A number of the format divided by a power of ten. -/
def scaleDown (format : BinaryFormat) (x : Rat) (places : Nat) : Rat :=
  if places ≤ greatestScale then format.nearest (x / format.nearest (Nat.pow 10 places : Nat))
  else
    scaleDown format (format.nearest (x / format.nearest (Nat.pow 10 greatestScale : Nat)))
      (places - greatestScale)
termination_by places
decreasing_by
  have : 0 < greatestScale := by decide
  omega

/-- The number of a format that is read for `digits` with the point before the last `places` of
them. Digits that do not fit into a 64-bit word count as zeros. -/
def ofDecimal (format : BinaryFormat) (digits : Int) (places : Nat) : Rat :=
  let (leading, left) := leadingDigits digits.natAbs
  let x := format.nearest leading
  let scaled :=
    if places ≤ left then format.nearest (x * format.nearest (Nat.pow 10 (left - places) : Nat))
    else format.scaleDown x (places - left)
  if digits < 0 then -scaled else scaled

end BinaryFormat

end VectorizedSort
