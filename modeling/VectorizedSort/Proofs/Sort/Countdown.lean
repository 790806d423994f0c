import VectorizedSort.Proofs.Sort.Heap
import VectorizedSort.Proofs.Sort.Whole

/-! # Heapsort as one countdown

The heap can be built and emptied by one loop that counts down over half as many slots again as the
array has: above the length it sinks the elements of the inner nodes, below it the roots that have
changed places with the last slot. Here this loop looks up every index and gives up as soon as one
lies outside of its tree, and sinking is cut off after a number of turns. It goes through for all
elements, with more turns than the tree is high, and does what heapsort does. -/

namespace VectorizedSort

open Element

variable {α : Type}

/-! ### A tree that refuses -/

/-- The element in one of the first `size` slots. -/
def read? (v : Array α) (size i : Nat) : Option α := if i < size then v[i]? else none

/-- Exchange two of the first `size` slots. -/
def swap? (v : Array α) (size i j : Nat) : Option (Array α) :=
  if i < size ∧ j < size ∧ size ≤ v.size then some (v.swapIfInBounds i j) else none

section Slots

variable {n size i j : Nat} (v : Vector α n) (hsize : size ≤ n) (hi : i < size)

include hsize hi

theorem read?_eq_some : read? v.toArray size i = some v[i] := by
  rw [read?, if_pos hi, Vector.getElem?_toArray, Vector.getElem?_eq_getElem]

theorem swap?_eq_some (hj : j < size) :
    swap? v.toArray size i j = some (v.swap i j).toArray := by
  have hin : i < v.toArray.size := by rw [v.size_toArray]; omega
  have hjn : j < v.toArray.size := by rw [v.size_toArray]; omega
  rw [swap?, if_pos ⟨hi, hj, by rwa [v.size_toArray]⟩, Array.swapIfInBounds_def, dif_pos hin,
    dif_pos hjn, Vector.toArray_swap]

end Slots

variable [Element α]

/-- The larger one of the children that stand in the slot `left` and the next one, in the tree of
the first `size` slots. The next one may not exist. -/
def largerOf? (v : Array α) (size left : Nat) : Option Nat :=
  if left + 1 < size then do
    let a ← read? v size left
    let b ← read? v size (left + 1)
    return if lt a b then left + 1 else left
  else some left

/-- How a turn of sinking an element ends. -/
inductive Turn (α : Type) where
  /-- The element is in its place. -/
  | settled
  /-- The element has changed places with a child. -/
  | sank (items : Array α) (child : Nat)

/-- One turn of sinking the element at a node of the tree of the first `size` slots. -/
def sinkTurn? (v : Array α) (size node : Nat) : Option (Turn α) :=
  if 2 * node + 1 < size then do
    let child ← largerOf? v size (2 * node + 1)
    let x ← read? v size node
    let y ← read? v size child
    if lt x y then
      let v ← swap? v size node child
      return .sank v child
    else return .settled
  else some .settled

/-- Sink the element at a node within a number of turns. There is no answer if they do not suffice
or an index lies outside of the tree. -/
def sink? (v : Array α) (size node : Nat) : (turns : Nat) → Option (Array α)
  | 0 => none
  | turns + 1 => do
    match ← sinkTurn? v size node with
    | .settled => return v
    | .sank v child => sink? v size child turns

/-- One step of the countdown. From the length on, sink the element of an inner node. Below the
length, move the root behind the shrinking tree and sink what has come to the root. -/
def countdownStep? (turns : Nat) (v : Array α) (i : Nat) : Option (Array α) :=
  if v.size ≤ i then sink? v (min v.size i) (i - v.size) turns
  else (swap? v v.size 0 i).bind fun v => sink? v (min v.size i) 0 turns

/-- The whole countdown, every sinking within a number of turns. -/
def countdown? (turns : Nat) (v : Array α) : Option (Array α) :=
  (List.range (v.size + v.size / 2)).reverse.foldlM (countdownStep? turns) v

/-! ### Sinking goes through -/

section Sink

variable {n : Nat} (v : Vector α n) (size : Nat) (hsize : size ≤ n) (node : Nat)

/-- The larger child is found without an index outside of the tree. -/
theorem largerOf?_eq_some {child : Nat} {h : node < child ∧ child < size}
    (hsome : largerChild? v size hsize node = some ⟨child, h⟩) :
    2 * node + 1 < size ∧ largerOf? v.toArray size (2 * node + 1) = some child := by
  unfold largerChild? at hsome
  split at hsome
  · rename_i hleft
    refine ⟨hleft, ?_⟩
    split at hsome
    · rename_i hright
      rw [largerOf?, if_pos hright, read?_eq_some v hsize hleft, read?_eq_some v hsize hright]
      split at hsome
      · rename_i hlt
        cases hsome
        exact congrArg some (if_pos hlt)
      · rename_i hlt
        cases hsome
        exact congrArg some (if_neg hlt)
    · rename_i hright
      cases hsome
      rw [largerOf?, if_neg hright]
  · cases hsome

/-- A turn at a node without children ends the sinking. -/
theorem sinkTurn?_of_none (hnone : largerChild? v size hsize node = none) :
    sinkTurn? v.toArray size node = some .settled := by
  rw [sinkTurn?, if_neg (Nat.not_lt.mpr (size_le_of_largerChild?_eq_none hnone (Or.inl rfl)))]

/-- A turn at any other node compares its element with the larger child. -/
theorem sinkTurn?_of_some {child : Nat} (hnode : node < n) (hchild : child < n)
    {h : node < child ∧ child < size} (hsome : largerChild? v size hsize node = some ⟨child, h⟩) :
    sinkTurn? v.toArray size node =
      some (if lt v[node] v[child] then .sank (v.swap node child).toArray child else .settled) := by
  obtain ⟨hleft, hlarger⟩ := largerOf?_eq_some v size hsize node hsome
  have hx : read? v.toArray size node = some v[node] := read?_eq_some v hsize (by omega)
  have hy : read? v.toArray size child = some v[child] := read?_eq_some v hsize h.2
  have hswap : swap? v.toArray size node child = some (v.swap node child).toArray :=
    swap?_eq_some v hsize (by omega) h.2
  rw [sinkTurn?, if_pos hleft, hlarger]
  simp only [Option.bind_eq_bind, Option.bind_some, hx, hy, hswap]
  split <;> rfl

/-- Within enough turns for the tree below the node, sinking ends where it always ends. -/
theorem sink?_eq_some {turns : Nat} (hturns : 0 < turns) (hbound : size < (node + 1) * 2 ^ turns) :
    sink? v.toArray size node turns = some (siftDown v size hsize node).toArray := by
  obtain ⟨turns, rfl⟩ : ∃ k, turns = k + 1 := ⟨turns - 1, by omega⟩
  fun_induction siftDown v size hsize node generalizing turns with
  | case1 v node hnone =>
    rw [sink?, sinkTurn?_of_none v size hsize node hnone]
    rfl
  | case2 v node child hchild hsome hlt ih =>
    -- one level further down the tree is at most half as high
    have hdown : 2 * (node + 1) ≤ child + 1 := by
      rcases isChild_of_largerChild?_eq_some hsome with rfl | rfl <;> omega
    have hrest : size < (child + 1) * 2 ^ turns := by
      rw [Nat.pow_succ', ← Nat.mul_assoc, Nat.mul_comm _ 2] at hbound
      exact hbound.trans_le (Nat.mul_le_mul_right _ hdown)
    obtain ⟨turns, rfl⟩ : ∃ k, turns = k + 1 := by
      refine Nat.exists_eq_succ_of_ne_zero ?_
      rintro rfl
      omega
    rw [sink?, sinkTurn?_of_some v size hsize node (by omega) (by omega) hsome, if_pos hlt]
    exact ih turns (Nat.succ_pos turns) hrest
  | case3 v node child hchild hsome hlt =>
    rw [sink?, sinkTurn?_of_some v size hsize node (by omega) (by omega) hsome, if_neg hlt]
    rfl

/-- A tree with fewer slots than two to the number of turns needs no more of them, from any node. -/
theorem sink?_eq_some_of_lt_two_pow {turns : Nat} (hturns : 0 < turns) (hbound : size < 2 ^ turns) :
    sink? v.toArray size node turns = some (siftDown v size hsize node).toArray :=
  sink?_eq_some v size hsize node hturns
    (hbound.trans_le (Nat.le_mul_of_pos_left _ (Nat.succ_pos node)))

end Sink

/-! ### The countdown goes through -/

section Countdown

variable {n turns : Nat} (hturns : 0 < turns) (hbound : n < 2 ^ turns)

include hturns hbound

/-- Above the length the countdown builds the heap. -/
theorem foldlM_countdownStep?_build (v : Vector α n) (nodes : Nat) :
    ((List.range nodes).map (n + ·)).reverse.foldlM (countdownStep? turns) v.toArray =
      some (heapify v nodes).toArray := by
  induction nodes generalizing v with
  | zero => rfl
  | succ node ih =>
    have hstep : countdownStep? turns v.toArray (n + node) =
        some (siftDown v n (Nat.le_refl n) node).toArray := by
      rw [countdownStep?, v.size_toArray, if_pos (Nat.le_add_right n node),
        Nat.min_eq_left (Nat.le_add_right n node), Nat.add_sub_cancel_left]
      exact sink?_eq_some_of_lt_two_pow v n (Nat.le_refl n) node hturns hbound
    rw [List.range_succ, List.map_append, List.reverse_append, List.map_cons, List.map_nil,
      List.reverse_singleton, List.singleton_append, List.foldlM_cons, hstep]
    exact ih _

/-- Below the length it empties the heap. -/
theorem foldlM_countdownStep?_pop (v : Vector α n) (size : Nat) (hsize : size ≤ n) :
    (List.range size).reverse.foldlM (countdownStep? turns) v.toArray =
      some (popAll v size hsize).toArray := by
  induction size generalizing v with
  | zero => rfl
  | succ size ih =>
    have hlt : size < n := hsize
    have hstep : countdownStep? turns v.toArray size =
        some (siftDown (v.swap 0 size) size (Nat.le_of_lt hlt) 0).toArray := by
      rw [countdownStep?, v.size_toArray, if_neg (Nat.not_le.mpr hlt),
        swap?_eq_some v (Nat.le_refl n) (by omega) hlt, Option.bind_some, Vector.size_toArray,
        Nat.min_eq_right (Nat.le_of_lt hlt)]
      exact sink?_eq_some_of_lt_two_pow _ size _ 0 hturns (hlt.trans hbound)
    rw [List.range_succ, List.reverse_append, List.reverse_singleton, List.singleton_append,
      List.foldlM_cons, hstep]
    exact ih _ _

end Countdown

/-- One turn for every level of the tree is enough. -/
theorem pos_and_lt_two_pow_of_log2_lt {size turns : Nat} (h : size.log2 < turns) :
    0 < turns ∧ size < 2 ^ turns :=
  ⟨Nat.zero_lt_of_lt h, Nat.lt_log2_self.trans_le (Nat.pow_le_pow_right Nat.two_pos h)⟩

/-- With one turn for every level of its tree, the countdown does what heapsort does. -/
theorem countdown?_eq_some (v : Array α) {turns : Nat} (h : v.size.log2 < turns) :
    countdown? turns v = some (heapSort v) := by
  obtain ⟨hturns, hbound⟩ := pos_and_lt_two_pow_of_log2_lt h
  have hbuild := foldlM_countdownStep?_build hturns hbound v.toVector (v.size / 2)
  have hpop := foldlM_countdownStep?_pop hturns hbound (heapify v.toVector (v.size / 2)) v.size
    (Nat.le_refl v.size)
  rw [countdown?, List.range_add, List.reverse_append, List.foldlM_append]
  exact (congrArg (· >>= _) hbuild).trans hpop

/-- Sinking leaves the slots behind the tree alone. -/
theorem getElem?_siftDown_of_le {n : Nat} (v : Vector α n) {size i : Nat} (hsize : size ≤ n)
    (node : Nat) (hi : size ≤ i) : (siftDown v size hsize node)[i]? = v[i]? := by
  by_cases hin : i < n
  · obtain ⟨k, hk, hget, -, hout⟩ := exists_getElem_siftDown v size hsize node i hin
    have hsame := hout hi
    subst hsame
    rw [Vector.getElem?_eq_getElem hin, Vector.getElem?_eq_getElem hin, hget]
  · rw [Vector.getElem?_eq_none (Nat.not_lt.mp hin), Vector.getElem?_eq_none (Nat.not_lt.mp hin)]

/-- Heapsort leaves integers and ordered floats in order, and it rearranges every array. Whatever
the elements are, the countdown that builds and empties the heap comes to no index outside of the
array. Every sinking, from any node of the tree of any first slots, ends within one turn for every
level of that tree, comes to no index outside of it and leaves what stands behind it. -/
theorem heapSort_sorts_within_bounds (v : Array α) :
    ((Element.kind α).isInteger ∨ AllOrdered v → Nondecreasing (heapSort v)) ∧
      (heapSort v).Perm v ∧
      (∀ turns, v.size.log2 < turns → countdown? turns v = some (heapSort v)) ∧
      ∀ size node turns, size ≤ v.size → size.log2 < turns →
        ∃ w, sink? v size node turns = some w ∧ w.Perm v ∧ ∀ i, size ≤ i → w[i]? = v[i]? := by
  refine ⟨?_, heapSort_perm v, fun _ hturns => countdown?_eq_some v hturns, ?_⟩
  · intro hv
    exact nondecreasing_heapSort (hv.elim (fun hint => allOrdered_of_isInteger hint v) id)
  · intro size node turns hsize hlog
    obtain ⟨hturns, hbound⟩ := pos_and_lt_two_pow_of_log2_lt hlog
    have hsink := sink?_eq_some_of_lt_two_pow v.toVector size hsize node hturns hbound
    have hperm := siftDown_perm v.toVector size hsize node
    refine ⟨_, hsink, Vector.perm_iff_toArray_perm.mp hperm, fun i hi => ?_⟩
    rw [Vector.getElem?_toArray, getElem?_siftDown_of_le v.toVector hsize node hi]
    rfl

/-- A NaN does not keep the countdown from ending inside the array, and without it both zeros and
both infinities are sorted. -/
theorem heapSort_sorts_within_bounds_of_floats :
    let v : Array Binary32 := #[⟨0⟩, .infinity, ⟨0x80000000⟩, .negInfinity, ⟨1⟩]
    let u : Array Binary32 := #[⟨0⟩, .quietNaN, ⟨0x80000000⟩, .infinity, ⟨1⟩]
    AllOrdered v ∧ Nondecreasing (heapSort v) ∧ u.size.log2 < 3 ∧
      countdown? 3 u = some (heapSort u) ∧ (3 : Nat).log2 < 2 ∧
      ∃ w, sink? u 3 0 2 = some w ∧ w.Perm u ∧ ∀ i, 3 ≤ i → w[i]? = u[i]? := by
  intro v u
  have hv : AllOrdered v := allOrdered_iff_not_isNaN.mpr (by decide)
  have hturns : u.size.log2 < 3 := by decide
  have hlevels : (3 : Nat).log2 < 2 := by decide
  obtain ⟨hsorts, -⟩ := heapSort_sorts_within_bounds v
  obtain ⟨-, -, hcountdown, hsink⟩ := heapSort_sorts_within_bounds u
  exact ⟨hv, hsorts (Or.inr hv), hturns, hcountdown 3 hturns, hlevels,
    hsink 3 0 2 (by decide) hlevels⟩

end VectorizedSort
