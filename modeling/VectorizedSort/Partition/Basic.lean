import VectorizedSort.Register.Lanes

/-! # What a partition tests and what it learns

A partition sends the elements that pass a test against the pivot to the right and the others to
the left, and keeps track of the smallest and the biggest element on its way. Both exist for single
elements and for whole registers. -/

namespace VectorizedSort

/-- The tests an element can be put to. An unordered element fails both. -/
inductive Test where
  /-- The element is at least the pivot. -/
  | atLeast
  /-- The element is strictly above the pivot. -/
  | above
deriving DecidableEq

/-- The smallest and the biggest value seen so far. -/
structure Extremes (β : Type) where
  smallest : β
  biggest : β
deriving DecidableEq

/-- A partitioned array: the elements before the boundary failed the test, the others passed. -/
structure Split (α : Type) where
  /-- The rearranged elements. -/
  items : Array α
  /-- The number of elements that failed. -/
  boundary : Nat
  /-- The extremes over the elements and what was seen before. -/
  seen : Extremes α

variable {α : Type} [Element α]

namespace Test

/-- Whether an element passes the test against a pivot. -/
def passes : Test → (x pivot : α) → Bool
  | atLeast, x, pivot => Element.le pivot x
  | above, x, pivot => Element.lt pivot x

/-- The lanes of a register that pass the test against the lanes of another. -/
def mask : Test → (lanes : Lanes) → (reg pivots : Register α lanes.width) → Mask lanes.width
  | atLeast, lanes, reg, pivots => lanes.atLeast reg pivots
  | above, lanes, reg, pivots => lanes.above reg pivots

end Test

namespace Extremes

/-- The extremes of no element at all, which every element replaces. -/
def seed : Extremes α := ⟨Element.greatest, Element.least⟩

/-- Take one more element into account. An unordered element changes nothing. -/
def absorb (seen : Extremes α) (x : α) : Extremes α :=
  ⟨Element.laneMin x seen.smallest, Element.laneMax x seen.biggest⟩

/-- The same extremes in every lane. -/
def spread (width : Nat) (seen : Extremes α) : Extremes (Register α width) :=
  ⟨broadcast width seen.smallest, broadcast width seen.biggest⟩

/-- Take one more register into account, lane by lane. -/
def absorbLanes (lanes : Lanes) (seen : Extremes (Register α lanes.width))
    (reg : Register α lanes.width) : Extremes (Register α lanes.width) :=
  ⟨lanes.lanewiseMin reg seen.smallest, lanes.lanewiseMax reg seen.biggest⟩

/-- The extremes over all lanes. -/
def reduce (lanes : Lanes) (seen : Extremes (Register α lanes.width)) : Extremes α :=
  ⟨lanes.reduceMin seen.smallest, lanes.reduceMax seen.biggest⟩

end Extremes

end VectorizedSort
