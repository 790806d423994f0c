import VectorizedSort.Element.Basic

/-! # Heapsort

The fallback for ranges on which partitioning makes too little progress. The first slots of an array
are read as a binary tree in which slots `2 * node + 1` and `2 * node + 2` are the children of a
node. The array is made a heap from the last inner node to the root, and then the root is moved
behind the shrinking heap again and again. -/

namespace VectorizedSort

variable {α : Type} [Element α] {n : Nat}

/-- The larger child of a node in the tree of the first `size` slots, the left one unless the right
one is strictly larger. -/
def largerChild? (v : Vector α n) (size : Nat) (hsize : size ≤ n) (node : Nat) :
    Option { child : Nat // node < child ∧ child < size } :=
  if hleft : 2 * node + 1 < size then
    if hright : 2 * node + 2 < size then
      -- of equal or unordered children the left one is taken
      if Element.lt v[2 * node + 1] v[2 * node + 2] then some ⟨2 * node + 2, by omega⟩
      else some ⟨2 * node + 1, by omega⟩
    else some ⟨2 * node + 1, by omega⟩
  else none

/-- Let the element at a node sink below every larger child. -/
def siftDown (v : Vector α n) (size : Nat) (hsize : size ≤ n) (node : Nat) : Vector α n :=
  match largerChild? v size hsize node with
  | none => v
  | some ⟨child, h⟩ =>
    if Element.lt v[node] v[child] then siftDown (v.swap node child) size hsize child else v
termination_by size - node

/-- Make the subtrees of the first `nodes` nodes heaps, the last one first. -/
def heapify (v : Vector α n) : (nodes : Nat) → Vector α n
  | 0 => v
  | node + 1 => heapify (siftDown v n (Nat.le_refl n) node) node

/-- Move the root behind the heap of the first `size` slots and repair the heap, until nothing is
left of it. -/
def popAll (v : Vector α n) : (size : Nat) → size ≤ n → Vector α n
  | 0, _ => v
  | size + 1, h => popAll (siftDown (v.swap 0 size) size (by omega) 0) size (by omega)

/-- Build a heap of all slots and empty it. -/
def heapSortSlots (v : Vector α n) : Vector α n := popAll (heapify v (n / 2)) n (Nat.le_refl n)

/-- Sort an array by building a heap and emptying it. -/
def heapSort (v : Array α) : Array α := (heapSortSlots v.toVector).toArray

@[simp] theorem size_heapSort (v : Array α) : (heapSort v).size = v.size := by
  simp [heapSort]

end VectorizedSort
