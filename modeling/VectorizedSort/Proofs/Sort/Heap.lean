import VectorizedSort.Proofs.Order
import VectorizedSort.Sort.Heap

/-! # Heapsort sorts

Sinking an element repairs a heap that is broken at one node only. Building the heap and emptying it
are two runs of such repairs: the first with the heap growing towards the root, the second with a
sorted part growing behind the shrinking heap. That nothing is lost holds for all elements, that the
result is sorted for ordered ones. -/

namespace VectorizedSort

open Element

variable {α : Type} [Element α] {n : Nat}

/-! ### Children -/

/-- Whether a node is one of the two children of another in the tree of slots. -/
def IsChild (node child : Nat) : Prop := child = 2 * node + 1 ∨ child = 2 * node + 2

theorem IsChild.lt {node child : Nat} (h : IsChild node child) : node < child := by
  rcases h with rfl | rfl <;> omega

/-- A slot has only one parent. -/
theorem IsChild.parent_eq {node node' child : Nat} (h : IsChild node child)
    (h' : IsChild node' child) : node = node' := by
  unfold IsChild at h h'
  omega

/-- Every slot but the root is a child. -/
theorem exists_parent {child : Nat} (h : 0 < child) : ∃ node, IsChild node child :=
  ⟨(child - 1) / 2, by unfold IsChild; omega⟩

section Child

variable {v : Vector α n} {size node : Nat} {hsize : size ≤ n}

/-- A node for which no larger child is found has no children. -/
theorem size_le_of_largerChild?_eq_none (h : largerChild? v size hsize node = none) {child : Nat}
    (hchild : IsChild node child) : size ≤ child := by
  unfold largerChild? at h
  split at h
  · split at h
    · split at h <;> cases h
    · cases h
  · rcases hchild with rfl | rfl <;> omega

variable {larger : Nat} {hlarger : node < larger ∧ larger < size}

theorem isChild_of_largerChild?_eq_some
    (h : largerChild? v size hsize node = some ⟨larger, hlarger⟩) : IsChild node larger := by
  unfold largerChild? at h
  split at h
  · split at h
    · split at h
      · cases h
        exact Or.inr rfl
      · cases h
        exact Or.inl rfl
    · cases h
      exact Or.inl rfl
  · cases h

/-- No child is strictly larger than the larger one. -/
theorem le_of_largerChild?_eq_some (hv : AllOrdered v.toArray)
    (h : largerChild? v size hsize node = some ⟨larger, hlarger⟩) {child : Nat} (hlt : child < size)
    (hchild : IsChild node child) : le v[child] v[larger] := by
  have hordered (i : Nat) (hi : i < n) : isOrdered v[i] := hv.getElem_slot hi
  unfold largerChild? at h
  split at h
  · split at h
    · split at h
      · cases h
        rcases hchild with rfl | rfl
        · exact le_of_lt ‹_›
        · exact le_refl (hordered _ (by omega))
      · cases h
        rcases hchild with rfl | rfl
        · exact le_refl (hordered _ (by omega))
        · exact (not_lt_iff_le (hordered _ _) (hordered _ _)).mp ‹_›
    · cases h
      rcases hchild with rfl | rfl
      · exact le_refl (hordered _ (by omega))
      · omega
  · cases h

end Child

/-! ### Sinking an element -/

/-- From a node on, no child among the first `size` slots is above its parent. -/
def HeapFrom (v : Vector α n) (start size : Nat) : Prop :=
  ∀ (node child : Nat) (_ : node < n) (_ : child < n), start ≤ node → child < size →
    IsChild node child → le v[child] v[node]

/-- A heap but for the element at one node, which may be below its children. They are not above its
own parent, so that one of them can take its place. -/
structure HeapExcept (v : Vector α n) (start size hole : Nat) : Prop where
  except : ∀ (node child : Nat) (_ : node < n) (_ : child < n), start ≤ node → child < size →
    IsChild node child → node ≠ hole → le v[child] v[node]
  grand : ∀ (node child : Nat) (_ : node < n) (_ : child < n), start ≤ node → child < size →
    IsChild node hole → IsChild hole child → le v[child] v[node]

/-- Exchanging the element with its larger child moves the broken node down. -/
theorem HeapExcept.move {v : Vector α n} {start size node larger : Nat} (hsize : size ≤ n)
    (h : HeapExcept v start size node) (hstart : start ≤ node) (hnode : node < n)
    (hlarger : larger < size) (hchild : IsChild node larger) (hlt : lt v[node] v[larger])
    (hmax : ∀ (child : Nat) (_ : child < size), IsChild node child → le v[child] v[larger]) :
    HeapExcept (v.swap node larger) start size larger := by
  have hdown := hchild.lt
  constructor
  case except =>
    intro parent child hparent hchild' hge hin hrel hne
    have hrel_lt := hrel.lt
    by_cases hat : parent = node
    · subst hat
      rw [Vector.getElem_swap_left]
      by_cases hsame : child = larger
      · subst hsame
        rw [Vector.getElem_swap_right]
        exact le_of_lt hlt
      · rw [Vector.getElem_swap_of_ne (by omega) hsame]
        exact hmax child hin hrel
    · rw [Vector.getElem_swap_of_ne hat hne]
      by_cases hup : child = node
      · -- the parent of the broken node is above the child that moves up
        subst hup
        rw [Vector.getElem_swap_left]
        exact h.grand parent larger hparent (by omega) hge hlarger hrel hchild
      · have hother : child ≠ larger := by
          rintro rfl
          exact hat (hrel.parent_eq hchild)
        rw [Vector.getElem_swap_of_ne hup hother]
        exact h.except parent child hparent hchild' hge hin hrel hat
  case grand =>
    -- what moved up is the old parent of the new children
    intro parent child hparent hchild' _ hin hrel hrel'
    have hparent_eq := hrel.parent_eq hchild
    have hrel_lt := hrel'.lt
    subst hparent_eq
    rw [Vector.getElem_swap_left, Vector.getElem_swap_of_ne (by omega) (by omega)]
    exact h.except larger child (by omega) hchild' (by omega) hin hrel' (by omega)

/-- An element with no child above it is in its place. -/
theorem HeapExcept.finish {v : Vector α n} {start size node : Nat}
    (h : HeapExcept v start size node) (hnode : ∀ (child : Nat) (_ : child < n) (_ : node < n),
      child < size → IsChild node child → le v[child] v[node]) : HeapFrom v start size := by
  intro parent child hparent hchild hge hin hrel
  by_cases hat : parent = node
  · subst hat
    exact hnode child hchild hparent hin hrel
  · exact h.except parent child hparent hchild hge hin hrel hat

section SiftDown

variable (v : Vector α n) (size : Nat) (hsize : size ≤ n) (node : Nat)

theorem siftDown_perm : (siftDown v size hsize node).Perm v := by
  fun_induction siftDown v size hsize node with
  | case1 v node h => exact .rfl
  | case2 v node child hchild h hlt ih => exact ih.trans (Vector.swap_perm _ _)
  | case3 v node child hchild h hlt => exact .rfl

/-- Only the first `size` slots change, and among themselves. -/
theorem exists_getElem_siftDown (i : Nat) (hi : i < n) :
    ∃ (k : Nat) (_ : k < n), (siftDown v size hsize node)[i] = v[k] ∧
      (i < size → k < size) ∧ (size ≤ i → k = i) := by
  fun_induction siftDown v size hsize node with
  | case1 v node h => exact ⟨i, hi, rfl, id, fun _ => rfl⟩
  | case2 v node child hchild h hlt ih =>
    obtain ⟨k, hk, hget, hin, hout⟩ := ih
    -- both exchanged slots lie among the first `size` ones
    rw [Vector.getElem_swap] at hget
    by_cases hnode : k = node
    · rw [if_pos hnode] at hget
      exact ⟨child, by omega, hget, by omega, by omega⟩
    · by_cases hother : k = child
      · rw [if_neg hnode, if_pos hother] at hget
        exact ⟨node, by omega, hget, by omega, by omega⟩
      · rw [if_neg hnode, if_neg hother] at hget
        exact ⟨k, hk, hget, hin, hout⟩
  | case3 v node child hchild h hlt => exact ⟨i, hi, rfl, id, fun _ => rfl⟩

theorem siftDown_heap (hv : AllOrdered v.toArray) {start : Nat} (hstart : start ≤ node)
    (h : HeapExcept v start size node) : HeapFrom (siftDown v size hsize node) start size := by
  fun_induction siftDown v size hsize node with
  | case1 v node hnone =>
    refine h.finish fun child _ _ hin hrel => ?_
    have := size_le_of_largerChild?_eq_none hnone hrel
    omega
  | case2 v node child hchild hsome hlt ih =>
    refine ih (hv.of_perm_slots (Vector.swap_perm _ _)) (by omega) ?_
    exact h.move hsize hstart (by omega) hchild.2 (isChild_of_largerChild?_eq_some hsome) hlt
      fun _ => le_of_largerChild?_eq_some hv hsome
  | case3 v node child hchild hsome hlt =>
    have hordered (i : Nat) (hi : i < n) : isOrdered v[i] := hv.getElem_slot hi
    refine h.finish fun other hother hnode hin hrel => ?_
    exact le_trans (le_of_largerChild?_eq_some hv hsome hin hrel)
      ((not_lt_iff_le (hordered node hnode) (hordered child _)).mp hlt)

end SiftDown

/-! ### Building the heap -/

theorem heapify_perm (v : Vector α n) (nodes : Nat) : (heapify v nodes).Perm v := by
  induction nodes generalizing v with
  | zero => exact .rfl
  | succ node ih => exact (ih _).trans (siftDown_perm v n (Nat.le_refl n) node)

/-- Every node before the heap is broken alone when its turn comes. -/
theorem heapify_heap (v : Vector α n) (nodes : Nat) (hv : AllOrdered v.toArray)
    (h : HeapFrom v nodes n) : HeapFrom (heapify v nodes) 0 n := by
  induction nodes generalizing v with
  | zero => exact h
  | succ node ih =>
    have hsift := hv.of_perm_slots (siftDown_perm v n (Nat.le_refl n) node)
    refine ih _ hsift (siftDown_heap v n _ node hv (Nat.le_refl node) ⟨?_, ?_⟩)
    · intro parent child hparent hchild hge hin hrel hne
      exact h parent child hparent hchild (by omega) hin hrel
    · -- the node has no parent from `node` on
      intro parent child _ _ hge _ hrel _
      have := hrel.lt
      omega

/-- The second half of the slots has no children. -/
theorem heapFrom_half (v : Vector α n) : HeapFrom v (n / 2) n := by
  intro node child _ _ hge hin hrel
  unfold IsChild at hrel
  omega

/-- The root of a heap is its largest element. -/
theorem HeapFrom.le_root {v : Vector α n} {size : Nat} (h : HeapFrom v 0 size) (hsize : size ≤ n)
    (hv : AllOrdered v.toArray) (i : Nat) (hi : i < size) : le v[i] v[0] := by
  induction i using Nat.strongRecOn with
  | ind i ih =>
    -- climb from a slot to its parent
    rcases Nat.eq_zero_or_pos i with rfl | hpos
    · exact le_refl (hv.getElem_slot (Nat.lt_of_lt_of_le hi hsize))
    · obtain ⟨node, hnode⟩ := exists_parent hpos
      have hlt := hnode.lt
      exact le_trans (h node i (by omega) (by omega) (Nat.zero_le node) hi hnode)
        (ih node hlt (by omega))

/-! ### Emptying the heap -/

/-- The first `size` slots are a heap, and every later slot holds an element that is at least each
one before it. -/
structure Drained (v : Vector α n) (size : Nat) : Prop where
  ordered : AllOrdered v.toArray
  heap : HeapFrom v 0 size
  tail : ∀ (i j : Nat) (_ : i < n) (_ : j < n), i < j → size ≤ j → le v[i] v[j]

/-- Moving the root behind the heap and repairing the heap drains one more slot. -/
theorem Drained.pop {v : Vector α n} {size : Nat} (h : Drained v (size + 1)) (hsize : size < n) :
    Drained (siftDown (v.swap 0 size) size (Nat.le_of_lt hsize) 0) size := by
  have hswap := h.ordered.of_perm_slots (Vector.swap_perm (Nat.zero_lt_of_lt hsize) hsize)
  have hsift := siftDown_perm (v.swap 0 size) size (Nat.le_of_lt hsize) 0
  have hmoved (k : Nat) (hk : k < n) : ∃ (m : Nat) (_ : m < n),
      (v.swap 0 size)[k] = v[m] ∧ (k ≤ size → m ≤ size) ∧ (size < k → m = k) := by
    by_cases hzero : k = 0
    · subst hzero
      exact ⟨size, hsize, Vector.getElem_swap_left _ _, by omega, by omega⟩
    · by_cases hlast : k = size
      · subst hlast
        exact ⟨0, by omega, Vector.getElem_swap_right _ _, by omega, by omega⟩
      · exact ⟨k, hk, Vector.getElem_swap_of_ne hzero hlast, id, fun _ => rfl⟩
  constructor
  case ordered => exact hswap.of_perm_slots hsift
  case heap =>
    refine siftDown_heap _ _ _ _ hswap (Nat.le_refl 0) ⟨?_, ?_⟩
    · -- the exchange only broke the root
      intro node child hnode hchild hge hin hrel hne
      have hrel_lt := hrel.lt
      rw [Vector.getElem_swap_of_ne (by omega) (by omega),
        Vector.getElem_swap_of_ne hne (by omega)]
      exact h.heap node child hnode hchild hge (by omega) hrel
    · intro node child _ _ _ _ hrel _
      exact absurd hrel.lt (Nat.not_lt_zero node)
  case tail =>
    intro i j hi hj hij hge
    obtain ⟨k, hk, hget, -, hout⟩ :=
      exists_getElem_siftDown (v.swap 0 size) size (Nat.le_of_lt hsize) 0 j hj
    obtain ⟨k', hk', hget', hin', hout'⟩ :=
      exists_getElem_siftDown (v.swap 0 size) size (Nat.le_of_lt hsize) 0 i hi
    obtain ⟨m, hm, hval, hbelow, habove⟩ := hmoved k' hk'
    have hkj := hout hge
    subst hkj
    rw [hget, hget', hval]
    rcases Nat.lt_or_eq_of_le hge with hlt | heq
    · -- behind the old root nothing has moved
      rw [Vector.getElem_swap_of_ne (by omega) (by omega)]
      exact h.tail m k hm hk (by omega) hlt
    · subst heq
      rw [Vector.getElem_swap_right]
      exact h.heap.le_root hsize h.ordered m (by omega)

theorem popAll_perm (v : Vector α n) (size : Nat) (hsize : size ≤ n) :
    (popAll v size hsize).Perm v := by
  induction size generalizing v with
  | zero => exact .rfl
  | succ size ih =>
    exact ((ih _ _).trans (siftDown_perm _ _ _ _)).trans (Vector.swap_perm _ _)

theorem popAll_drained (v : Vector α n) (size : Nat) (hsize : size ≤ n) (h : Drained v size) :
    Drained (popAll v size hsize) 0 := by
  induction size generalizing v with
  | zero => exact h
  | succ size ih => exact ih _ _ (h.pop hsize)

/-! ### The sort -/

theorem heapSort_perm (v : Array α) : (heapSort v).Perm v :=
  Vector.perm_iff_toArray_perm.mp ((popAll_perm _ _ _).trans (heapify_perm v.toVector _))

theorem heapSort_le {v : Array α} (hv : AllOrdered v) {i j : Nat} (hi : i < (heapSort v).size)
    (hj : j < (heapSort v).size) (hij : i < j) : le (heapSort v)[i] (heapSort v)[j] := by
  have hheap := heapify_heap v.toVector (v.size / 2) hv (heapFrom_half v.toVector)
  have hbuilt := AllOrdered.of_perm_slots (v := v.toVector) hv (heapify_perm _ (v.size / 2))
  have hdrained := popAll_drained _ v.size (Nat.le_refl v.size)
    ⟨hbuilt, hheap, fun i j _ hj _ hge => absurd hj (Nat.not_lt_of_le hge)⟩
  rw [size_heapSort] at hi hj
  exact hdrained.tail i j hi hj hij (Nat.zero_le j)

theorem nondecreasing_heapSort {v : Array α} (hv : AllOrdered v) : Nondecreasing (heapSort v) :=
  fun i hi => heapSort_le hv (Nat.lt_of_succ_lt hi) hi (Nat.lt_succ_self i)

end VectorizedSort
