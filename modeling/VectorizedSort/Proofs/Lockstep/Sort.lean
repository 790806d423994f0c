import VectorizedSort.Proofs.Lockstep.Paired
import VectorizedSort.Proofs.Sort.Network
import VectorizedSort.Sort.Heap
import VectorizedSort.Sort.Insertion

/-! # Sorting short arrays in lockstep

Heapsort, insertion sort and the exchange network move the elements of paired arrays in the same
way. Each of them looks at elements only through `lt`, so that paired arrays take the same branch
at every comparison. -/

namespace VectorizedSort

open Element

variable {α β : Type} {R : α → β → Prop}

/-! ### Slots -/

namespace Paired

section Slots

variable {n : Nat} {v : Vector α n} {w : Vector β n}

theorem of_slots (h : ∀ (i : Nat) (_ : i < n), R v[i] w[i]) : Paired R v.toArray w.toArray :=
  ⟨by rw [v.size_toArray, w.size_toArray], fun i hv _ => h i (v.size_toArray ▸ hv)⟩

variable (h : Paired R v.toArray w.toArray)

include h

theorem slot (i : Nat) (hi : i < n) : R v[i] w[i] :=
  h.getElem i (v.size_toArray.symm ▸ hi) (w.size_toArray.symm ▸ hi)

theorem swapSlots {i j : Nat} (hi : i < n) (hj : j < n) :
    Paired R (v.swap i j).toArray (w.swap i j).toArray := by
  rw [Vector.toArray_swap, Vector.toArray_swap]
  exact h.swap _ _ _ _

theorem setSlot {a : α} {b : β} (hab : R a b) {i : Nat} (hi : i < n) :
    Paired R (v.set i a).toArray (w.set i b).toArray := by
  refine of_slots fun k hk => ?_
  rw [Vector.getElem_set, Vector.getElem_set]
  by_cases hik : i = k
  · rwa [if_pos hik, if_pos hik]
  · rw [if_neg hik, if_neg hik]
    exact h.slot k hk

end Slots

end Paired

variable [Element α] [Element β] (hR : ComparesAlike R)

/-! ### Heapsort -/

section Heap

variable {n : Nat} {v : Vector α n} {w : Vector β n} (h : Paired R v.toArray w.toArray)

include hR h

/-- Both trees have the same larger children. -/
theorem largerChild?_paired (size : Nat) (hsize : size ≤ n) (node : Nat) :
    largerChild? v size hsize node = largerChild? w size hsize node := by
  unfold largerChild?
  by_cases hleft : 2 * node + 1 < size
  · rw [dif_pos hleft, dif_pos hleft]
    by_cases hright : 2 * node + 2 < size
    · rw [dif_pos hright, dif_pos hright, hR.lt_eq (h.slot _ _) (h.slot _ _)]
    · rw [dif_neg hright, dif_neg hright]
  · rw [dif_neg hleft, dif_neg hleft]

theorem siftDown_paired (size : Nat) (hsize : size ≤ n) (node : Nat) :
    Paired R (siftDown v size hsize node).toArray (siftDown w size hsize node).toArray := by
  fun_induction siftDown v size hsize node generalizing w with
  | case1 v node hnone =>
    rw [largerChild?_paired hR h] at hnone
    rw [siftDown, hnone]
    exact h
  | case2 v node child hchild hsome hlt ih =>
    rw [largerChild?_paired hR h] at hsome
    rw [hR.lt_eq (h.slot _ _) (h.slot _ _)] at hlt
    rw [siftDown.eq_def w, hsome]
    simp only [if_pos hlt]
    exact ih (h.swapSlots _ _)
  | case3 v node child hchild hsome hlt =>
    rw [largerChild?_paired hR h] at hsome
    rw [hR.lt_eq (h.slot _ _) (h.slot _ _)] at hlt
    rw [siftDown, hsome]
    simp only [if_neg hlt]
    exact h

theorem heapify_paired (nodes : Nat) :
    Paired R (heapify v nodes).toArray (heapify w nodes).toArray := by
  induction nodes generalizing v w with
  | zero => exact h
  | succ node ih => exact ih (siftDown_paired hR h n (Nat.le_refl n) node)

theorem popAll_paired (size : Nat) (hsize : size ≤ n) :
    Paired R (popAll v size hsize).toArray (popAll w size hsize).toArray := by
  induction size generalizing v w with
  | zero => exact h
  | succ size ih => exact ih (siftDown_paired hR (h.swapSlots _ _) size _ 0) _

end Heap

/-- Heapsort on an array whose length has another name. -/
theorem heapSort_eq_slots {v : Array α} {n : Nat} (h : v.size = n) :
    heapSort v = (heapSortSlots (⟨v, h⟩ : Vector α n)).toArray := by
  subst h
  rfl

include hR in
theorem heapSort_paired {v : Array α} {w : Array β} (h : Paired R v w) :
    Paired R (heapSort v) (heapSort w) := by
  rw [heapSort_eq_slots h.size_eq, heapSort_eq_slots rfl]
  exact popAll_paired hR (heapify_paired hR h _) _ _

/-! ### Insertion sort -/

section Insertion

variable {n : Nat} {v : Vector α n} {w : Vector β n} (h : Paired R v.toArray w.toArray)

include hR h

theorem fillHole_paired {x : α} {y : β} (hxy : R x y) (hole : Nat) (hhole : hole < n) :
    Paired R (fillHole x hole v hhole).toArray (fillHole y hole w hhole).toArray := by
  induction hole generalizing v w with
  | zero => exact h.setSlot hxy hhole
  | succ j ih =>
    have hj := h.slot j (Nat.lt_of_succ_lt hhole)
    rw [fillHole, fillHole, hR.lt_eq hxy hj]
    split
    · exact ih (h.setSlot hj hhole) _
    · exact h.setSlot hxy hhole

theorem insertFrom_paired (i : Nat) :
    Paired R (insertFrom v i).toArray (insertFrom w i).toArray := by
  fun_induction insertFrom v i generalizing w with
  | case1 v i hi ih =>
    rw [insertFrom.eq_def w, dif_pos hi]
    exact ih (fillHole_paired hR h (h.slot i hi) i hi)
  | case2 v i hi =>
    rw [insertFrom, dif_neg hi]
    exact h

end Insertion

/-- Insertion sort on an array whose length has another name. -/
theorem insertionSort_eq_slots {v : Array α} {n : Nat} (h : v.size = n) (offset : Nat) :
    insertionSort v offset = if offset ≠ 0 ∧ offset ≤ n then
      .ok (insertFrom (⟨v, h⟩ : Vector α n) offset).toArray else .error .offsetOutOfRange := by
  subst h
  rfl

include hR in
theorem insertionSort_paired {v : Array α} {w : Array β} (h : Paired R v w) (offset : Nat) :
    SameOutcome (Paired R) (insertionSort v offset) (insertionSort w offset) := by
  rw [insertionSort_eq_slots h.size_eq, insertionSort_eq_slots rfl]
  split
  · exact .ok (insertFrom_paired hR h offset)
  · exact .error _

/-! ### The exchange network -/

section Network

variable {v : Array α} {w : Array β} (h : Paired R v w)

include hR h

theorem exchangePair_paired {pos : Nat} (hpos : pos + 1 < v.size) :
    Paired R (Scalar.exchangePair v pos) (Scalar.exchangePair w pos) := by
  have hpos' : pos + 1 < w.size := h.size_eq ▸ hpos
  have hfirst := h.getElem pos (Nat.lt_of_succ_lt hpos) (Nat.lt_of_succ_lt hpos')
  have hsecond := h.getElem (pos + 1) hpos hpos'
  rw [Scalar.exchangePair_eq (Nat.lt_of_succ_lt hpos) hpos,
    Scalar.exchangePair_eq (Nat.lt_of_succ_lt hpos') hpos', hR.lt_eq hfirst hsecond]
  split
  · exact h
  · exact h.swapIfInBounds pos (pos + 1)

theorem exchangePairs_paired {pos count : Nat} (hcount : pos + 2 * count ≤ v.size) :
    Paired R (Scalar.exchangePairs v pos count) (Scalar.exchangePairs w pos count) := by
  induction count generalizing v w pos with
  | zero => exact h
  | succ count ih =>
    have hsize : (Scalar.exchangePair v pos).size = v.size :=
      (Scalar.exchangePair_perm (by omega)).size_eq
    exact ih (exchangePair_paired hR h (by omega)) (by omega)

theorem roundOf_paired (round : Nat) : Paired R (roundOf v round) (roundOf w round) := by
  rw [roundOf, roundOf, ← h.size_eq]
  by_cases hround : round % 2 ≤ v.size
  · exact exchangePairs_paired hR h (by omega)
  · rw [Nat.sub_eq_zero_of_le (by omega), Nat.zero_div]
    exact h

theorem rounds_paired (count : Nat) : Paired R (rounds v count) (rounds w count) := by
  induction count with
  | zero => exact h
  | succ count ih =>
    rw [rounds_succ, rounds_succ]
    exact roundOf_paired hR ih count

/-- The network exchanges alike on any two lane sets. -/
theorem exchangeSort_paired (lanes lanes' : Lanes) :
    Paired R (exchangeSort lanes v) (exchangeSort lanes' w) := by
  rw [exchangeSort_eq_rounds, exchangeSort_eq_rounds]
  exact rounds_paired hR h (runThreshold + 1)

end Network

end VectorizedSort
