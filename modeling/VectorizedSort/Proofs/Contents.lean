import Mathlib.Algebra.Order.Group.Multiset
import Mathlib.Data.Multiset.Filter
import VectorizedSort.Slice

/-! # The contents of a range

What a rearrangement keeps is the multiset of the elements in a range, not their order. The
contents of neighbouring ranges add up, writing a list replaces the contents of exactly the slots
it covers, and putting a rearranged slice back rearranges the array. -/

namespace VectorizedSort

variable {α : Type}

/-! ### Slices -/

theorem getElem?_slice (v : Array α) (lo hi i : Nat) :
    (slice v lo hi)[i]? = if lo + i < hi then v[lo + i]? else none := by
  rw [slice, Array.getElem?_extract]
  split
  · rw [if_pos (by omega)]
  · split
    · rw [Array.getElem?_eq_none (by omega)]
    · rfl

/-- Two neighbouring slices make up one. -/
theorem slice_append_slice (v : Array α) {lo mid hi : Nat} (h₁ : lo ≤ mid) (h₂ : mid ≤ hi) :
    slice v lo mid ++ slice v mid hi = slice v lo hi := by
  rw [slice, slice, slice, Array.extract_append_extract, Nat.min_eq_left h₁, Nat.max_eq_right h₂]

@[simp] theorem slice_self (v : Array α) (lo : Nat) : slice v lo lo = #[] :=
  Array.extract_empty_of_stop_le_start (Nat.le_refl lo)

/-- The slice of one slot. -/
theorem slice_succ (v : Array α) {i : Nat} (h : i < v.size) : slice v i (i + 1) = #[v[i]] := by
  rw [slice, Array.extract_succ_right (Nat.lt_succ_self i) h,
    Array.extract_empty_of_stop_le_start (Nat.le_refl i)]
  rfl

theorem length_toList_slice (v : Array α) {lo hi : Nat} (h : hi ≤ v.size) :
    (slice v lo hi).toList.length = hi - lo := by
  rw [Array.length_toList, size_slice v h]

@[simp] theorem slice_full (v : Array α) : slice v 0 v.size = v := Array.extract_size

/-- Arrays that agree on a range have the same slice there. -/
theorem slice_congr {v w : Array α} {lo hi : Nat}
    (h : ∀ i, lo ≤ i → i < hi → v[i]? = w[i]?) : slice v lo hi = slice w lo hi := by
  apply Array.ext_getElem?
  intro i
  rw [getElem?_slice, getElem?_slice]
  split
  · exact h (lo + i) (Nat.le_add_right lo i) ‹_›
  · rfl

/-- A slice that no slot of a written list lies in is as before. -/
theorem slice_writeList_of_disjoint (v : Array α) {pos lo hi : Nat} (xs : List α)
    (h : hi ≤ pos ∨ pos + xs.length ≤ lo) : slice (writeList v pos xs) lo hi = slice v lo hi := by
  apply slice_congr
  intro i hlo hhi
  rw [getElem?_writeList, if_neg (by omega)]

/-- The slots a list was written to hold that list. -/
theorem slice_writeList_self (v : Array α) {pos : Nat} {xs : List α}
    (h : pos + xs.length ≤ v.size) :
    slice (writeList v pos xs) pos (pos + xs.length) = xs.toArray := by
  apply Array.ext_getElem?
  intro i
  rw [getElem?_slice, getElem?_writeList]
  by_cases hi : i < xs.length
  · rw [if_pos (by omega), if_pos (by omega), Nat.add_sub_cancel_left, List.getElem?_toArray]
  · rw [if_neg (by omega), Array.getElem?_eq_none (Nat.not_lt.mp hi)]

/-! ### Contents -/

/-- The elements in `[lo, hi)`, counted with multiplicity. -/
def contents (v : Array α) (lo hi : Nat) : Multiset α := ((slice v lo hi).toList : Multiset α)

theorem contents_add_contents (v : Array α) {lo mid hi : Nat} (h₁ : lo ≤ mid) (h₂ : mid ≤ hi) :
    contents v lo mid + contents v mid hi = contents v lo hi := by
  rw [contents, contents, contents, Multiset.coe_add, ← Array.toList_append,
    slice_append_slice v h₁ h₂]

@[simp] theorem contents_self (v : Array α) (lo : Nat) : contents v lo lo = 0 := by
  rw [contents, slice_self, List.toList_toArray, Multiset.coe_nil]

@[simp] theorem contents_full (v : Array α) : contents v 0 v.size = (v.toList : Multiset α) := by
  rw [contents, slice_full]

theorem mem_contents {v : Array α} {lo hi : Nat} {x : α} :
    x ∈ contents v lo hi ↔ ∃ i, lo ≤ i ∧ i < hi ∧ v[i]? = some x := by
  rw [contents, Multiset.mem_coe, Array.mem_toList_iff, Array.mem_iff_getElem?]
  constructor
  · rintro ⟨i, hi⟩
    rw [getElem?_slice] at hi
    split at hi
    · exact ⟨lo + i, Nat.le_add_right lo i, ‹_›, hi⟩
    · cases hi
  · rintro ⟨i, hlo, hhi, hx⟩
    refine ⟨i - lo, ?_⟩
    rw [getElem?_slice, Nat.add_sub_cancel' hlo, if_pos hhi, hx]

/-- A property of all contents of a range is one of all its slots. -/
theorem forall_mem_contents {v : Array α} {lo hi : Nat} {p : α → Prop} :
    (∀ x ∈ contents v lo hi, p x) ↔ ∀ i (h : i < v.size), lo ≤ i → i < hi → p v[i] := by
  constructor
  · intro h i hi hlo hhi
    exact h v[i] (mem_contents.mpr ⟨i, hlo, hhi, Array.getElem?_eq_getElem hi⟩)
  · intro h x hx
    obtain ⟨i, hlo, hhi, hi⟩ := mem_contents.mp hx
    obtain ⟨hsize, rfl⟩ := Array.getElem?_eq_some_iff.mp hi
    exact h i hsize hlo hhi

theorem mem_of_mem_contents {v : Array α} {lo hi : Nat} {x : α} (h : x ∈ contents v lo hi) :
    x ∈ v := by
  obtain ⟨i, -, -, hi⟩ := mem_contents.mp h
  exact Array.mem_of_getElem? hi

theorem mem_of_mem_slice {v : Array α} {lo hi : Nat} {x : α} (h : x ∈ slice v lo hi) : x ∈ v :=
  mem_of_mem_contents (Multiset.mem_coe.mpr (Array.mem_toList_iff.mpr h))

theorem card_contents (v : Array α) {lo hi : Nat} (h : hi ≤ v.size) :
    (contents v lo hi).card = hi - lo := by
  rw [contents, Multiset.coe_card, length_toList_slice v h]

/-- Arrays that agree on a range have the same contents there. -/
theorem contents_congr {v w : Array α} {lo hi : Nat}
    (h : ∀ i, lo ≤ i → i < hi → v[i]? = w[i]?) : contents v lo hi = contents w lo hi := by
  rw [contents, contents, slice_congr h]

/-- The contents of one slot. -/
theorem contents_succ (v : Array α) {i : Nat} (h : i < v.size) :
    contents v i (i + 1) = {v[i]} := by
  rw [contents, slice_succ v h]
  rfl

theorem contents_writeList_of_disjoint (v : Array α) {pos lo hi : Nat} (xs : List α)
    (h : hi ≤ pos ∨ pos + xs.length ≤ lo) :
    contents (writeList v pos xs) lo hi = contents v lo hi := by
  rw [contents, contents, slice_writeList_of_disjoint v xs h]

theorem contents_writeList_self (v : Array α) {pos : Nat} {xs : List α}
    (h : pos + xs.length ≤ v.size) :
    contents (writeList v pos xs) pos (pos + xs.length) = (xs : Multiset α) := by
  rw [contents, slice_writeList_self v h, List.toList_toArray]

/-! ### Rearranging -/

theorem perm_iff_coe_eq {v w : Array α} :
    v.Perm w ↔ (v.toList : Multiset α) = (w.toList : Multiset α) := by
  rw [Array.perm_iff_toList_perm, Multiset.coe_eq_coe]

section Splice

variable {v part : Array α} {lo : Nat}

theorem contents_splice_of_disjoint {a b : Nat} (h : b ≤ lo ∨ lo + part.size ≤ a) :
    contents (splice v lo part) a b = contents v a b :=
  contents_writeList_of_disjoint v part.toList (by rwa [Array.length_toList])

theorem contents_splice_self (h : lo + part.size ≤ v.size) :
    contents (splice v lo part) lo (lo + part.size) = (part.toList : Multiset α) := by
  rw [← Array.length_toList] at h ⊢
  exact contents_writeList_self v h

/-- Inside the range, the spliced array holds what the part holds. -/
theorem contents_splice_inside {a b : Nat} (h : lo + part.size ≤ v.size) (hb : b ≤ part.size) :
    contents (splice v lo part) (lo + a) (lo + b) = contents part a b := by
  have hslice : slice (splice v lo part) (lo + a) (lo + b) = slice part a b := by
    apply Array.ext_getElem?
    intro i
    rw [getElem?_slice, getElem?_slice, getElem?_splice]
    by_cases hi : a + i < b
    · rw [if_pos (by omega), if_pos (by omega), if_pos hi, show lo + a + i - lo = a + i by omega]
    · rw [if_neg (by omega), if_neg hi]
  rw [contents, contents, hslice]

variable {hi : Nat}

/-- Putting a rearranged slice back keeps the contents of every range that holds it. -/
theorem contents_splice_of_perm (hlo : lo ≤ hi) (hhi : hi ≤ v.size)
    (h : part.Perm (slice v lo hi)) {a b : Nat} (ha : a ≤ lo) (hb : hi ≤ b) :
    contents (splice v lo part) a b = contents v a b := by
  have hsize : lo + part.size = hi := by
    rw [h.size_eq, size_slice v hhi]
    omega
  have hmid : contents (splice v lo part) lo hi = contents v lo hi := by
    rw [← hsize, contents_splice_self (by omega), hsize, contents, perm_iff_coe_eq.mp h]
  calc contents (splice v lo part) a b
      = contents (splice v lo part) a lo + (contents (splice v lo part) lo hi
          + contents (splice v lo part) hi b) := by
        rw [contents_add_contents _ hlo hb, contents_add_contents _ ha (hlo.trans hb)]
    _ = contents v a lo + (contents v lo hi + contents v hi b) := by
        rw [hmid, contents_splice_of_disjoint (Or.inl (Nat.le_refl lo)),
          contents_splice_of_disjoint (Or.inr (Nat.le_of_eq hsize))]
    _ = contents v a b := by
        rw [contents_add_contents _ hlo hb, contents_add_contents _ ha (hlo.trans hb)]

/-- Putting a rearranged slice back rearranges the array. -/
theorem splice_perm (hlo : lo ≤ hi) (hhi : hi ≤ v.size) (h : part.Perm (slice v lo hi)) :
    (splice v lo part).Perm v := by
  have hall := contents_splice_of_perm hlo hhi h (Nat.zero_le lo) hhi
  rw [contents_full] at hall
  rw [perm_iff_coe_eq, ← hall, ← contents_full, size_splice]

end Splice

/-! ### Exchanges -/

section Swap

variable {v : Array α} {i j : Nat}

theorem getElem?_swapIfInBounds (hi : i < v.size) (hj : j < v.size) (k : Nat) :
    (v.swapIfInBounds i j)[k]? =
      if j = k then some v[i] else if i = k then some v[j] else v[k]? := by
  rw [Array.swapIfInBounds_def, dif_pos hi, dif_pos hj, Array.getElem?_swap]

theorem swapIfInBounds_perm (v : Array α) (i j : Nat) : (v.swapIfInBounds i j).Perm v := by
  rw [Array.swapIfInBounds_def]
  split
  · split
    · exact Array.swap_perm _ _
    · exact .rfl
  · exact .rfl

variable {lo hi : Nat}

/-- An exchange outside of a range keeps its contents. -/
theorem contents_swapIfInBounds_of_disjoint (h₁ : i < lo ∨ hi ≤ i) (h₂ : j < lo ∨ hi ≤ j) :
    contents (v.swapIfInBounds i j) lo hi = contents v lo hi := by
  apply contents_congr
  intro k hlo hhi
  by_cases hi : i < v.size
  · by_cases hj : j < v.size
    · rw [getElem?_swapIfInBounds hi hj, if_neg (by omega), if_neg (by omega)]
    · rw [Array.swapIfInBounds_def, dif_pos hi, dif_neg hj]
  · rw [Array.swapIfInBounds_def, dif_neg hi]

/-- An exchange inside of a range keeps its contents. -/
theorem contents_swapIfInBounds_of_inside (h₁ : lo ≤ i ∧ i < hi) (h₂ : lo ≤ j ∧ j < hi)
    (hsize : hi ≤ v.size) : contents (v.swapIfInBounds i j) lo hi = contents v lo hi := by
  have hget := getElem?_swapIfInBounds (Nat.lt_of_lt_of_le h₁.2 hsize)
    (Nat.lt_of_lt_of_le h₂.2 hsize)
  have hbelow (k : Nat) (hk : k < lo) : (v.swapIfInBounds i j)[k]? = v[k]? := by
    rw [hget, if_neg (by omega), if_neg (by omega)]
  have habove (k : Nat) (hk : hi ≤ k) : (v.swapIfInBounds i j)[k]? = v[k]? := by
    rw [hget, if_neg (by omega), if_neg (by omega)]
  exact perm_iff_coe_eq.mp ((swapIfInBounds_perm v i j).extract hbelow habove)

/-- Exchanging the last slot of a range with another one moves the rest of the range behind it. -/
theorem contents_swapIfInBounds_last (hij : i ≤ j) (hj : j < v.size) :
    contents (v.swapIfInBounds j i) (i + 1) (j + 1) = contents v i j := by
  have hi : i < (v.swapIfInBounds j i).size := by
    rw [Array.size_swapIfInBounds]
    omega
  have hmoved : (v.swapIfInBounds j i)[i] = v[j] := by
    have hget := getElem?_swapIfInBounds hj (Nat.lt_of_le_of_lt hij hj) i
    rw [if_pos rfl, Array.getElem?_eq_getElem hi] at hget
    exact Option.some_inj.mp hget
  -- the whole range keeps its contents, and what stands in its first slot is known
  have hall : contents (v.swapIfInBounds j i) i (j + 1) = contents v i (j + 1) :=
    contents_swapIfInBounds_of_inside (by omega) (by omega) hj
  rw [← contents_add_contents _ (Nat.le_succ i) (by omega), contents_succ _ hi, hmoved,
    ← contents_add_contents v hij (Nat.le_succ j), contents_succ v hj, add_comm] at hall
  exact add_right_cancel hall

/-- Exchanging the first slot of a range with another one moves the rest of the range before it. -/
theorem contents_swapIfInBounds_first (hij : i ≤ j) (hj : j < v.size) :
    contents (v.swapIfInBounds i j) i j = contents v (i + 1) (j + 1) := by
  have hi : i < v.size := Nat.lt_of_le_of_lt hij hj
  have hj' : j < (v.swapIfInBounds i j).size := by rwa [Array.size_swapIfInBounds]
  have hmoved : (v.swapIfInBounds i j)[j] = v[i] := by
    have hget := getElem?_swapIfInBounds hi hj j
    rw [if_pos rfl, Array.getElem?_eq_getElem hj'] at hget
    exact Option.some_inj.mp hget
  have hall : contents (v.swapIfInBounds i j) i (j + 1) = contents v i (j + 1) :=
    contents_swapIfInBounds_of_inside (by omega) (by omega) hj
  rw [← contents_add_contents _ hij (Nat.le_succ j), contents_succ _ hj', hmoved,
    ← contents_add_contents v (Nat.le_succ i) (by omega), contents_succ v hi, add_comm] at hall
  exact add_left_cancel hall

end Swap

end VectorizedSort
