import VectorizedSort.Element.Basic
import VectorizedSort.Numeric.Nearest

/-! # 32-bit floats as elements

A float is kept as its bit pattern: elements are compared and moved but never computed with, so the
payload and the sign of a NaN survive. The key of a float is its magnitude under its sign, which
orders all floats that are not NaN and gives both zeros the key 0. Input patterns make floats of
numbers; there the exponent field counts the places above the least one, and the leading digit of a
normal number adds one to it, so that the sum of the two is the pattern without its sign. -/

namespace VectorizedSort

/-- A binary interchange float of 32 bits: sign, eight exponent bits, 23 fraction bits. -/
structure Binary32 where
  /-- The bit pattern. -/
  bits : UInt32
deriving DecidableEq

namespace Binary32

/-- The magnitude bits of infinity; larger magnitudes are NaN. -/
def infinityBits : Nat := 0x7f800000

/-- The bit pattern without its sign. -/
def magnitude (x : Binary32) : Nat := x.bits.toNat % 0x80000000

/-- Whether the sign bit is set. -/
def isNegative (x : Binary32) : Bool := decide (0x80000000 ≤ x.bits.toNat)

/-- Whether the pattern is one of the NaNs. -/
def isNaN (x : Binary32) : Bool := decide (infinityBits < x.magnitude)

/-- Sign and magnitude as one integer, or nothing for a NaN. -/
def orderKey (x : Binary32) : Option Int :=
  if x.isNaN then none
  else some (if x.isNegative then -(x.magnitude : Int) else x.magnitude)

/-- Positive infinity. -/
def infinity : Binary32 := ⟨0x7f800000⟩

/-- Negative infinity. -/
def negInfinity : Binary32 := ⟨0xff800000⟩

/-- The NaN that fresh computations use: positive, quiet, no payload. -/
def quietNaN : Binary32 := ⟨0x7fc00000⟩

/-- A key never exceeds that of infinity in magnitude. -/
theorem orderKey_bounds {x : Binary32} {j : Int} (h : x.orderKey = some j) :
    -(infinityBits : Int) ≤ j ∧ j ≤ infinityBits := by
  unfold orderKey at h
  split at h
  · simp at h
  · rename_i hn
    simp only [isNaN, decide_eq_true_eq, Nat.not_lt] at hn
    cases h
    split <;> omega

end Binary32

instance : Element Binary32 where
  kind := .float32
  key := Binary32.orderKey
  zero := ⟨0⟩
  least := .negInfinity
  greatest := .infinity
  toWord x := x.bits
  ofWord w := ⟨w⟩
  key_least := ⟨-(Binary32.infinityBits : Int), by decide, fun _ _ h =>
    (Binary32.orderKey_bounds h).1⟩
  key_greatest := ⟨Binary32.infinityBits, by decide, fun _ _ h => (Binary32.orderKey_bounds h).2⟩
  isSome_key h := by cases h
  ofWord_toWord _ := rfl
  toWord_ofWord _ := rfl

/-! ### Floats of numbers -/

namespace Binary32

/-- The float nearest to a number that is not too large for one. Zero is positive. -/
def ofRat (x : Rat) : Binary32 :=
  let format := BinaryFormat.single
  let place := format.lastPlace x
  let digits := (nearestEven (x / twoPow place)).natAbs
  -- a carry out of the digits moves the exponent up by itself
  let magnitude := (place - format.leastPlace).toNat * 0x800000 + digits
  if digits = 0 then ⟨0⟩
  else ⟨UInt32.ofNat (if x < 0 then 0x80000000 + magnitude else magnitude)⟩

/-- The float nearest to an integer. -/
def ofInt32 (x : Int32) : Binary32 := ofRat x.toInt

end Binary32

end VectorizedSort
