import VectorizedSort.Slice
import VectorizedSort.Partition.Range

/-! # Bands around one or two pivots

Rearranging an array into three bands with two boundaries. One pivot splits off the elements equal
to it, two pivots split off those from the first up to, but not including, the second. Nothing is
sorted beyond that. -/

namespace VectorizedSort

/-- An array in three bands: below `lower`, from `lower` up to `upper`, and from `upper` on. -/
structure Bands (α : Type) where
  /-- The rearranged elements. -/
  items : Array α
  /-- Where the middle band starts. -/
  lower : Nat
  /-- Where the last band starts. -/
  upper : Nat

variable {α : Type} [Element α]

/-- The bands below, equal to and above the element at an index. Unordered elements go to the first
band. -/
def singlePivot (lanes : Lanes) (v : Array α) (index : Nat) (h : index < v.size) : Bands α :=
  let pivot := v[index]
  let below := partitionPass lanes .atLeast v pivot
  let rest := slice below.items below.boundary below.items.size
  let equal := partitionPass lanes .above rest pivot
  ⟨splice below.items below.boundary equal.items, below.boundary,
    below.boundary + equal.boundary⟩

/-- The bands below the element at the first index, from it up to the element at the second index,
and from that on. The two pivots are parked at the ends of the array while the elements between
them are partitioned, and then put at the boundaries. Pivots that compare equal leave the middle
band empty. -/
def dualPivot (lanes : Lanes) (v : Array α) (index1 index2 : Nat) (h1 : index1 < v.size)
    (h2 : index2 < v.size) : Bands α :=
  let pivot1 := v[index1]
  let pivot2 := v[index2]
  if Element.eqv pivot1 pivot2 then
    let split := partitionPass lanes .atLeast v pivot1
    ⟨split.items, split.boundary, split.boundary⟩
  else
    let last := v.size - 1
    -- park the pivots; one that stood in the first slot was moved by the first exchange
    let v := v.swapIfInBounds index1 0
    let v := v.swapIfInBounds (if index2 = 0 then index1 else index2) last
    let inner := partitionPass lanes .atLeast (slice v 1 last) pivot2
    let upper := 1 + inner.boundary
    let v := (splice v 1 inner.items).swapIfInBounds last upper
    if upper = 1 then
      -- the first pivot alone is the middle band
      ⟨v, 0, upper⟩
    else
      let inner := partitionPass lanes .atLeast (slice v 1 upper) pivot1
      -- the last element of the first band changes places with the parked pivot
      let lower := inner.boundary
      ⟨(splice v 1 inner.items).swapIfInBounds 0 lower, lower, upper⟩

/-- The bands around one element if both indices are the same, around two elements otherwise. -/
def partitionBands (lanes : Lanes) (v : Array α) (index1 index2 : Nat) (h1 : index1 < v.size)
    (h2 : index2 < v.size) : Bands α :=
  if index1 = index2 then singlePivot lanes v index1 h1 else dualPivot lanes v index1 index2 h1 h2

end VectorizedSort
