import VectorizedSort.Element.Basic
import VectorizedSort.Fault

/-! # Insertion sort

Short arrays are sorted by insertion. An element that is taken out leaves a hole, and the hole moves
to the left past every element that the taken one is strictly below. Elements that compare equal
keep their order, and an unordered element stops every hole. -/

namespace VectorizedSort

variable {α : Type} [Element α] {n : Nat}

/-- Move the hole to the left past all elements that `x` is below, and fill it with `x`. -/
def fillHole (x : α) : (hole : Nat) → (v : Vector α n) → hole < n → Vector α n
  | 0, v, h => v.set 0 x
  | j + 1, v, h =>
    if Element.lt x v[j] then fillHole x j (v.set (j + 1) v[j]) (by omega)
    else v.set (j + 1) x

/-- Insert the elements from index `i` on, one after another, into those before them. -/
def insertFrom (v : Vector α n) (i : Nat) : Vector α n :=
  if h : i < n then insertFrom (fillHole v[i] i v h) (i + 1) else v
termination_by n - i

/-- Sort an array whose first `offset` elements are sorted already. -/
def insertionSort (v : Array α) (offset : Nat) : Except Fault (Array α) :=
  if offset ≠ 0 ∧ offset ≤ v.size then .ok (insertFrom v.toVector offset).toArray
  else .error .offsetOutOfRange

end VectorizedSort
