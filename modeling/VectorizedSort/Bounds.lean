import VectorizedSort.Fault
import VectorizedSort.Partition.Bands

/-! # Indices and ranges from outside

Access to an array at an index or in a range that may lie outside of it, and partitions around one or
two elements at such indices. The first index that lies outside is reported. Two pivots that do not
compare equal cannot stand at one index; there they only differ if the element is unordered. -/

namespace VectorizedSort

variable {α : Type}

/-! ### Elements and ranges -/

/-- The array with the element at an index replaced. -/
def replaceAt (v : Array α) (index : Nat) (x : α) : Except Fault (Array α) :=
  if h : index < v.size then .ok (v.set index x) else .error (.indexOutOfBounds index v.size)

/-- The elements in `[start, stop)`. -/
def sliceAt (v : Array α) (start stop : Nat) : Except Fault (Array α) :=
  if stop < start then .error (.rangeReversed start stop)
  else if v.size < stop then .error (.rangePastEnd stop v.size)
  else .ok (slice v start stop)

/-! ### Pivots -/

variable [Element α]

/-- The bands around the element at an index. -/
def singlePivotAt (lanes : Lanes) (v : Array α) (index : Nat) : Except Fault (Bands α) :=
  if h : index < v.size then .ok (singlePivot lanes v index h)
  else .error (.indexOutOfBounds index v.size)

/-- The bands around the elements at two indices, which are different unless the element there
compares equal to itself. -/
def dualPivotAt (lanes : Lanes) (v : Array α) (index1 index2 : Nat) : Except Fault (Bands α) :=
  if h1 : index1 < v.size then
    if h2 : index2 < v.size then
      if index1 = index2 ∧ Element.isOrdered v[index1] = false then .error .pivotIndicesEqual
      else .ok (dualPivot lanes v index1 index2 h1 h2)
    else .error (.indexOutOfBounds index2 v.size)
  else .error (.indexOutOfBounds index1 v.size)

/-- The bands around one element if both indices are the same, around two elements otherwise. -/
def partitionBandsAt (lanes : Lanes) (v : Array α) (index1 index2 : Nat) :
    Except Fault (Bands α) :=
  if h1 : index1 < v.size then
    if h2 : index2 < v.size then .ok (partitionBands lanes v index1 index2 h1 h2)
    else .error (.indexOutOfBounds index2 v.size)
  else .error (.indexOutOfBounds index1 v.size)

end VectorizedSort
