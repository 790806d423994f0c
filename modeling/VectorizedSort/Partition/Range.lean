import VectorizedSort.Partition.Trim
import VectorizedSort.Partition.Sweep

/-! # Partitioning an array

The elements that do not fill a register are trimmed off first, the rest is swept register by
register. Both parts share the boundary and the extremes. -/

namespace VectorizedSort

variable {α : Type} [Element α]

/-- An array trimmed to a whole number of registers. -/
def trimToRegisters (lanes : Lanes) (test : Test) (v : Array α) (pivot : α) (seen : Extremes α) :
    Trimmed α :=
  trim test pivot (v.size % lanes.width) v 0 v.size seen
    (by have := Nat.mod_le v.size lanes.width; omega) (Nat.le_refl _)

/-- Partition an array around a pivot: the elements that fail the test come first. The extremes are
those of the given ones and all ordered elements. -/
def partitionRange (lanes : Lanes) (test : Test) (v : Array α) (pivot : α) (seen : Extremes α) :
    Split α :=
  let t := trimToRegisters lanes test v pivot seen
  if t.left = t.right then
    ⟨t.items, t.left, t.seen⟩
  else
    let s := Sweep.run lanes test pivot t.items t.left t.right t.seen
    ⟨s.mem, s.store, s.seen.reduce lanes⟩

/-- Partition an array around a pivot with fresh extremes. -/
def partitionPass (lanes : Lanes) (test : Test) (v : Array α) (pivot : α) : Split α :=
  partitionRange lanes test v pivot .seed

/-! ### Bounds -/

/-- The open range that trimming leaves lies inside the array and holds whole registers. -/
theorem trimToRegisters_bounds (lanes : Lanes) (test : Test) (v : Array α) (pivot : α)
    (seen : Extremes α) :
    let t := trimToRegisters lanes test v pivot seen
    t.items.size = v.size ∧ t.left + (v.size - v.size % lanes.width) = t.right ∧
      t.right ≤ v.size := by
  have ht := trim_bounds test pivot (v.size % lanes.width) v 0 v.size seen
    (by have := Nat.mod_le v.size lanes.width; omega) (Nat.le_refl _)
  exact ⟨ht.1, ht.2.2⟩

/-- Partitioning keeps the length of the array. -/
@[simp] theorem size_items_partitionRange (lanes : Lanes) (test : Test) (v : Array α) (pivot : α)
    (seen : Extremes α) : (partitionRange lanes test v pivot seen).items.size = v.size := by
  have ht := trimToRegisters_bounds lanes test v pivot seen
  unfold partitionRange
  simp only at ht ⊢
  split
  · exact ht.1
  · exact (Sweep.size_mem_run ..).trans ht.1

/-- The boundary of a partition lies inside the array or at its end. -/
theorem boundary_partitionRange_le (lanes : Lanes) (test : Test) (v : Array α) (pivot : α)
    (seen : Extremes α) : (partitionRange lanes test v pivot seen).boundary ≤ v.size := by
  have ht := trimToRegisters_bounds lanes test v pivot seen
  unfold partitionRange
  simp only at ht ⊢
  split
  · simp only
    omega
  · refine Nat.le_trans (Sweep.store_run_le lanes test pivot _ _ _ _ ?_ ?_) ht.2.2
    · rw [← ht.2.1, Nat.add_sub_cancel_left]
      exact Nat.dvd_sub_mod v.size
    · omega

/-- The boundary of a partition pass lies inside the array or at its end. -/
theorem boundary_partitionPass_le (lanes : Lanes) (test : Test) (v : Array α) (pivot : α) :
    (partitionPass lanes test v pivot).boundary ≤ v.size :=
  boundary_partitionRange_le lanes test v pivot .seed

end VectorizedSort
