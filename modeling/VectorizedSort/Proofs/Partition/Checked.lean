import VectorizedSort.Proofs.Partition.Bands
import VectorizedSort.Proofs.Sort.Countdown

/-! # Bands in an array that refuses

A partition into bands exchanges elements and partitions slices at positions that come out of the
boundaries of its passes. An exchange outside of the array would do nothing, a slice would be cut
off at its end and a difference at zero, which no caller could tell from a step that is allowed.
Here the partition is carried out step by step in an array that gives up instead. For two pivots
this is also where the elements must not stand at one index. -/

namespace VectorizedSort

variable {α : Type}

/-! ### Steps that refuse -/

/-- A difference, if it is not negative. -/
def difference? (a b : Nat) : Option Nat := if b ≤ a then some (a - b) else none

/-- The elements in `[lo, hi)`, if this is a range of the array. -/
def slice? (v : Array α) (lo hi : Nat) : Option (Array α) :=
  if lo ≤ hi ∧ hi ≤ v.size then some (slice v lo hi) else none

/-- Exchange two elements to the ends of the array. -/
def parkPivots? (v : Array α) (i j : Nat) : Option (Array α) := do
  let last ← difference? v.size 1
  let v ← swap? v v.size i 0
  swap? v v.size (if j = 0 then i else j) last

theorem difference?_of_le {a b : Nat} (h : b ≤ a) : difference? a b = some (a - b) := if_pos h

theorem swap?_of_lt {v : Array α} {i j : Nat} (hi : i < v.size) (hj : j < v.size) :
    swap? v v.size i j = some (v.swapIfInBounds i j) := if_pos ⟨hi, hj, Nat.le_refl _⟩

/-- Pivots inside the array can be parked, wherever they stand. -/
theorem parkPivots?_eq_some {v : Array α} {i j : Nat} (hi : i < v.size) (hj : j < v.size) :
    parkPivots? v i j = some (parkPivots v i j) := by
  have hpos : 0 < v.size := Nat.zero_lt_of_lt hi
  obtain ⟨hfrom, hlast⟩ := parked_slots_lt hi hj
  rw [parkPivots?]
  simp only [Option.bind_eq_bind, Option.bind_some, difference?_of_le hpos, swap?_of_lt hi hpos,
    swap?_of_lt hfrom hlast]
  rfl

variable [Element α]

/-- The array in which the elements of `[lo, hi)` have been partitioned, and the position where the
passing ones start. -/
def partitionInside? (lanes : Lanes) (test : Test) (pivot : α) (v : Array α) (lo hi : Nat) :
    Option (Array α × Nat) := do
  let part ← slice? v lo hi
  let split := partitionPass lanes test part pivot
  return (splice v lo split.items, lo + split.boundary)

theorem partitionInside?_eq_some (lanes : Lanes) (test : Test) (pivot : α) {v : Array α}
    {lo hi : Nat} (hlo : lo ≤ hi) (hhi : hi ≤ v.size) :
    partitionInside? lanes test pivot v lo hi =
      some (partitionInside lanes test pivot v lo hi, boundaryInside lanes test pivot v lo hi) := by
  rw [partitionInside?, slice?, if_pos ⟨hlo, hhi⟩]
  rfl

/-! ### One pivot -/

/-- The bands around the element at an index. -/
def singlePivot? (lanes : Lanes) (v : Array α) (index : Nat) : Option (Bands α) := do
  let pivot ← v[index]?
  let below := partitionPass lanes .atLeast v pivot
  let (items, upper) ←
    partitionInside? lanes .above pivot below.items below.boundary below.items.size
  return ⟨items, below.boundary, upper⟩

theorem singlePivot?_eq_some (lanes : Lanes) {v : Array α} {index : Nat} (h : index < v.size) :
    singlePivot? lanes v index = some (singlePivot lanes v index h) := by
  have hle := (partitionPass_sound lanes .atLeast v v[index]).boundary_le
  have hequal := partitionInside?_eq_some lanes .above v[index] hle (Nat.le_refl _)
  rw [singlePivot?]
  simp only [Option.bind_eq_bind, Option.bind_some, Array.getElem?_eq_getElem h, hequal]
  rfl

/-! ### Two pivots -/

/-- Partition the elements between the parked pivots around the second one and put it at its
boundary. -/
def placeUpper? (lanes : Lanes) (b : α) (v : Array α) : Option (Array α × Nat) := do
  let last ← difference? v.size 1
  let (v, upper) ← partitionInside? lanes .atLeast b v 1 last
  let v ← swap? v v.size last upper
  return (v, upper)

/-- Partition the elements below the second pivot around the first one and put it at its
boundary. -/
def placeLower? (lanes : Lanes) (a : α) (v : Array α) (upper : Nat) : Option (Bands α) := do
  let (v, start) ← partitionInside? lanes .atLeast a v 1 upper
  let lower ← difference? start 1
  let v ← swap? v v.size 0 lower
  return ⟨v, lower, upper⟩

/-- The bands around the elements at two indices, which must be different unless the elements
compare equal. -/
def dualPivot? (lanes : Lanes) (v : Array α) (i j : Nat) : Option (Bands α) := do
  let a ← v[i]?
  let b ← v[j]?
  if Element.eqv a b then
    let split := partitionPass lanes .atLeast v a
    return ⟨split.items, split.boundary, split.boundary⟩
  else if i = j then none
  else
    let v ← parkPivots? v i j
    let (v, upper) ← placeUpper? lanes b v
    if upper = 1 then return ⟨v, 0, upper⟩ else placeLower? lanes a v upper

section Stages

variable (lanes : Lanes) {a b : α} {between : Multiset α} {v : Array α}

/-- With pivots parked at its ends, an array has room for the second one at its boundary. -/
theorem Parked.placeUpper?_eq_some (h : Parked a b between v) :
    placeUpper? lanes b v =
      some (VectorizedSort.placeUpper lanes b v,
        boundaryInside lanes .atLeast b v 1 (v.size - 1)) := by
  have hsize := h.one_lt_size
  have hlo : 1 ≤ v.size - 1 := Nat.le_sub_one_of_lt hsize
  have hhi : v.size - 1 ≤ v.size := Nat.sub_le v.size 1
  have hle := boundaryInside_le lanes .atLeast b hlo hhi
  have hmsize := size_partitionInside lanes .atLeast b v 1 (v.size - 1)
  have hpass := partitionInside?_eq_some lanes .atLeast b hlo hhi
  have hswap := swap?_of_lt (v := partitionInside lanes .atLeast b v 1 (v.size - 1))
    (i := v.size - 1) (j := boundaryInside lanes .atLeast b v 1 (v.size - 1)) (by omega) (by omega)
  rw [placeUpper?]
  simp only [Option.bind_eq_bind, Option.bind_some, difference?_of_le (Nat.le_of_lt hsize), hpass,
    hswap]
  rfl

/-- With the second pivot at its boundary, there is room for the first one at its own. -/
theorem UpperPlaced.placeLower?_eq_some {upper : Nat} (h : UpperPlaced a b between upper v) :
    placeLower? lanes a v upper =
      some ⟨(partitionInside lanes .atLeast a v 1 upper).swapIfInBounds 0
          (boundaryInside lanes .atLeast a v 1 upper - 1),
        boundaryInside lanes .atLeast a v 1 upper - 1, upper⟩ := by
  have hone := h.one_le
  have hlt := h.lt_size
  have hhi : upper ≤ v.size := Nat.le_of_lt hlt
  have hle := boundaryInside_le lanes .atLeast a hone hhi
  have hmsize := size_partitionInside lanes .atLeast a v 1 upper
  have hpass := partitionInside?_eq_some lanes .atLeast a hone hhi
  have hlower := difference?_of_le (le_boundaryInside lanes .atLeast a v 1 upper)
  have hswap := swap?_of_lt (v := partitionInside lanes .atLeast a v 1 upper) (i := 0)
    (j := boundaryInside lanes .atLeast a v 1 upper - 1) (by omega) (by omega)
  rw [placeLower?]
  simp only [Option.bind_eq_bind, Option.bind_some, hpass, hlower, hswap]
  rfl

end Stages

theorem dualPivot?_eq_some (lanes : Lanes) {v : Array α} {i j : Nat} (hi : i < v.size)
    (hj : j < v.size) (hij : i ≠ j) :
    dualPivot? lanes v i j = some (dualPivot lanes v i j hi hj) := by
  rw [dualPivot?]
  simp only [Option.bind_eq_bind, Option.bind_some, Array.getElem?_eq_getElem hi,
    Array.getElem?_eq_getElem hj]
  by_cases h : Element.eqv v[i] v[j]
  · rw [if_pos h, dualPivot_of_eqv lanes hi hj h]
    rfl
  · have hparked := parkPivots_parked hi hj hij
    have hplaced := hparked.placeUpper lanes
    rw [if_neg h, if_neg hij, dualPivot_of_not_eqv lanes hi hj h]
    simp only [parkPivots?_eq_some hi hj, Option.bind_some, hparked.placeUpper?_eq_some lanes]
    split
    · rfl
    · exact hplaced.placeLower?_eq_some lanes

/-! ### Any two pivots -/

/-- The bands around one element if both indices are the same, around two elements otherwise. -/
def partitionBands? (lanes : Lanes) (v : Array α) (i j : Nat) : Option (Bands α) :=
  if i = j then singlePivot? lanes v i else dualPivot? lanes v i j

/-- With both indices inside the array, a partition into bands goes through: it comes to no index,
range or difference that it would have to refuse. -/
theorem partitionBands?_eq_some (lanes : Lanes) {v : Array α} {i j : Nat} (hi : i < v.size)
    (hj : j < v.size) :
    partitionBands? lanes v i j = some (partitionBands lanes v i j hi hj) := by
  rw [partitionBands?, partitionBands]
  split
  · exact singlePivot?_eq_some lanes hi
  · exact dualPivot?_eq_some lanes hi hj ‹_›

end VectorizedSort
