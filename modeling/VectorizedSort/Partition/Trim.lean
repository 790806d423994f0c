import VectorizedSort.Partition.Basic

/-! # Trimming a range to whole registers

A few elements are partitioned one at a time, so that the number of those left over is a multiple
of the register width. Each step looks at the leftmost open slot: a passing element changes places
with the rightmost open one, a failing element stays where it is. -/

namespace VectorizedSort

/-- An array with an open range `[left, right)`. Everything left of it failed the test, everything
right of it passed. -/
structure Trimmed (α : Type) where
  items : Array α
  left : Nat
  right : Nat
  seen : Extremes α

variable {α : Type} [Element α]

/-- Partition `count` elements of the open range `[left, right)` one at a time. -/
def trim (test : Test) (pivot : α) : (count : Nat) → (items : Array α) → (left right : Nat) →
    Extremes α → left + count ≤ right → right ≤ items.size → Trimmed α
  | 0, items, left, right, seen, _, _ => ⟨items, left, right, seen⟩
  | count + 1, items, left, right, seen, hcount, hright =>
    let x := items[left]
    if test.passes x pivot then
      -- the element that comes from the right end has not been looked at, so the slot stays open
      trim test pivot count (items.swap left (right - 1)) left (right - 1) (seen.absorb x)
        (by omega) (by simp; omega)
    else
      trim test pivot count items (left + 1) right (seen.absorb x) (by omega) hright

/-- Trimming keeps the length of the array and shortens the open range by the count. -/
theorem trim_bounds (test : Test) (pivot : α) (count : Nat) (items : Array α) (left right : Nat)
    (seen : Extremes α) (hcount : left + count ≤ right) (hright : right ≤ items.size) :
    let t := trim test pivot count items left right seen hcount hright
    t.items.size = items.size ∧ left ≤ t.left ∧ t.left + (right - left - count) = t.right ∧
      t.right ≤ right := by
  induction count generalizing items left right seen with
  | zero =>
    refine ⟨rfl, Nat.le_refl _, ?_, Nat.le_refl _⟩
    simp only [trim]
    omega
  | succ count ih =>
    simp only [trim]
    split
    · have := ih (items.swap left (right - 1)) left (right - 1) (seen.absorb items[left])
        (by omega) (by simp; omega)
      simp only [Array.size_swap] at this
      omega
    · have := ih items (left + 1) right (seen.absorb items[left]) (by omega) hright
      omega

end VectorizedSort
