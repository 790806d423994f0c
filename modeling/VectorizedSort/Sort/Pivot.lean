import VectorizedSort.Element.Basic
import VectorizedSort.Fault

/-! # The pivot of a range

Short ranges are partitioned around their first element, longer ones around the median of the
first, the middle and the last element. -/

namespace VectorizedSort

variable {α : Type} [Element α]

/-- Ranges shorter than this take their first element as pivot. -/
def sampleThreshold : Nat := 64

/-- The median of three elements. Of three equal ones it is the first. -/
def medianOfThree (first mid last : α) : α :=
  if Element.lt first mid then
    if Element.lt last first then first
    else if Element.lt last mid then last
    else mid
  else if Element.lt last mid then mid
  else if Element.lt last first then last
  else first

/-- The element that a non-empty range is partitioned around. -/
def choosePivot (v : Array α) (h : 0 < v.size) : α :=
  if v.size < sampleThreshold then v[0]
  else medianOfThree v[0] v[v.size / 2] v[v.size - 1]

/-- The element that a range is partitioned around. An empty one has no first element. -/
def pivotOf (v : Array α) : Except Fault α :=
  if h : 0 < v.size then .ok (choosePivot v h) else .error (.indexOutOfBounds 0 v.size)

end VectorizedSort
