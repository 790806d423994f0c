/-! # Slices of an array

Reading a range of an array out and putting a rearranged range back. A range is given by its first
position and the position after its last one. Elements are put back one by one, each to its own
slot, so the rest of the array is not touched; where the range lies inside the array, that is the
array before it, the new elements and the array behind it (`splice_eq_append`). -/

namespace VectorizedSort

variable {α : Type}

/-! ### Writing a list -/

/-- Write a list to consecutive slots from `pos` on. What does not fit into the array is dropped. -/
def writeList (v : Array α) (pos : Nat) : List α → Array α
  | [] => v
  | x :: xs => writeList (v.setIfInBounds pos x) (pos + 1) xs

@[simp] theorem size_writeList (v : Array α) (pos : Nat) (xs : List α) :
    (writeList v pos xs).size = v.size := by
  induction xs generalizing v pos with
  | nil => rfl
  | cons x xs ih => simp [writeList, ih]

/-- A slot that is written holds its element of the list, any other slot is as before. -/
theorem getElem?_writeList (v : Array α) (pos : Nat) (xs : List α) (i : Nat) :
    (writeList v pos xs)[i]? =
      if pos ≤ i ∧ i < pos + xs.length ∧ i < v.size then xs[i - pos]? else v[i]? := by
  induction xs generalizing v pos with
  | nil =>
    rw [if_neg (by simp only [List.length_nil]; omega)]
    rfl
  | cons x xs ih =>
    rw [writeList, ih, Array.size_setIfInBounds, List.length_cons]
    by_cases hi : i = pos
    · subst hi
      rw [if_neg (by omega)]
      by_cases hsize : i < v.size
      · simp [hsize]
      · simp [hsize]
    · rw [Array.getElem?_setIfInBounds_ne (Ne.symm hi)]
      by_cases hlater : pos + 1 ≤ i
      · rw [show i - pos = i - (pos + 1) + 1 by omega, List.getElem?_cons_succ]
        by_cases hend : i < pos + 1 + xs.length ∧ i < v.size
        · rw [if_pos ⟨hlater, hend⟩, if_pos (by omega)]
        · rw [if_neg (fun h => hend h.2), if_neg (by omega)]
      · rw [if_neg (fun h => hlater h.1), if_neg (by omega)]

/-! ### Slices -/

/-- The elements in `[lo, hi)`. -/
def slice (v : Array α) (lo hi : Nat) : Array α := v.extract lo hi

/-- The array with the elements from `lo` on replaced by those of `part`. -/
def splice (v : Array α) (lo : Nat) (part : Array α) : Array α := writeList v lo part.toList

theorem size_slice (v : Array α) {lo hi : Nat} (h : hi ≤ v.size) :
    (slice v lo hi).size = hi - lo := by
  simp [slice, Nat.min_eq_left h]

/-- Replacing a range keeps the length. -/
@[simp] theorem size_splice (v : Array α) (lo : Nat) (part : Array α) :
    (splice v lo part).size = v.size := by
  simp [splice]

/-- A slot of the range holds its element of the part, any other slot is as before. -/
theorem getElem?_splice (v : Array α) (lo : Nat) (part : Array α) (i : Nat) :
    (splice v lo part)[i]? =
      if lo ≤ i ∧ i < lo + part.size ∧ i < v.size then part[i - lo]? else v[i]? := by
  simp [splice, getElem?_writeList]

/-- Replacing a range inside the array keeps what stands before and behind it. -/
theorem splice_eq_append (v : Array α) {lo : Nat} {part : Array α} (h : lo + part.size ≤ v.size) :
    splice v lo part = v.extract 0 lo ++ part ++ v.extract (lo + part.size) v.size := by
  apply Array.ext_getElem?
  intro i
  rw [getElem?_splice]
  simp only [Array.getElem?_append, Array.size_append, Array.size_extract, Array.getElem?_extract]
  grind

end VectorizedSort
