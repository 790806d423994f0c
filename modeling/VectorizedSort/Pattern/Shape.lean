import VectorizedSort.Numeric.Nearest

/-! # Shapes of inputs

Sorting parts of a list, so that the list gets one of the shapes that sorts are tried on: runs up or
down, teeth of a saw, the pipes of an organ. -/

namespace VectorizedSort

/-- A percentage as a 64-bit float gives it. -/
inductive Percentage where
  /-- A number. -/
  | number (value : Rat)
  /-- An infinity. -/
  | infinite (negative : Bool)
  /-- No number at all. -/
  | undefined
deriving DecidableEq

instance : Coe Rat Percentage := ⟨.number⟩

/-- The probability that a percentage stands for, if it stands for one. -/
def Percentage.probability? : Percentage → Option Rat
  | .number percent =>
    let ratio := BinaryFormat.double.nearest (percent / 100)
    if ratio < 0 ∨ 1 < ratio then none else some ratio
  | .infinite _ | .undefined => none

namespace Shape

/-- The elements in ascending order. -/
def ascending (xs : List Int32) : List Int32 := xs.mergeSort fun a b => decide (a.toInt ≤ b.toInt)

/-- The elements in descending order. -/
def descending (xs : List Int32) : List Int32 := xs.mergeSort fun a b => decide (b.toInt ≤ a.toInt)

/-- The first `count` elements in ascending order, the others as they are. -/
def sortedStart (count : Nat) (xs : List Int32) : List Int32 :=
  ascending (xs.take count) ++ xs.drop count

/-- The first half in ascending order, the other half in descending order. -/
def pipeOrgan (xs : List Int32) : List Int32 :=
  ascending (xs.take (xs.length / 2)) ++ descending (xs.drop (xs.length / 2))

/-- The length of the teeth of a saw with a number of teeth. It is at least one, and a division that
leaves a rest makes more teeth than asked for. -/
def toothLength (length teeth : Nat) : Nat := max 1 (length / max 1 teeth)

/-- Sort one tooth after another, the number of each saying whether it goes down. -/
def teeth (size : Nat) (hsize : 0 < size) (goesDown : Nat → Bool) (number : Nat) :
    List Int32 → List Int32
  | [] => []
  | x :: xs =>
    let tooth := (x :: xs).take size
    (if goesDown number then descending tooth else ascending tooth) ++
      teeth size hsize goesDown (number + 1) ((x :: xs).drop size)
termination_by xs => xs.length
decreasing_by
  simp only [List.length_drop, List.length_cons]
  omega

/-- A saw of a number of teeth. -/
def saw (count : Nat) (goesDown : Nat → Bool) (xs : List Int32) : List Int32 :=
  teeth (toothLength xs.length count) (by unfold toothLength; omega) goesDown 0 xs

/-- The integers from zero up to, but not including, the length as a 32-bit integer. There are none
if that is negative. -/
def counting (length : Nat) : List Int32 :=
  (List.range (Int32.ofNat length).toInt.toNat).map Int32.ofNat

/-- The number of elements that are a percentage of a length. The length, the ratio and their
product are rounded to 64-bit floats, a half then counts as one, and what is out of range is taken
for the nearest count. An infinite share of no elements is no number, and what is no number counts as
none. -/
def share (length : Nat) : Percentage → Nat
  | .number percent =>
    let double := BinaryFormat.double
    let product := double.nearest (double.nearest length * double.nearest (percent / 100))
    min (nearestAway product).toNat (UInt64.size - 1)
  | .infinite negative => if length = 0 ∨ negative then 0 else UInt64.size - 1
  | .undefined => 0

end Shape

end VectorizedSort
