import VectorizedSort.Proofs.Contents
import VectorizedSort.Proofs.Register.Stores

/-! # Exchanging neighbours

Both lane sets put neighbouring pairs in order in the same way: what a slot holds afterwards depends
on the two elements of its pair alone. A pair is kept if its first element is strictly smaller and
swapped otherwise, so exchanges only rearrange, whatever the elements are. -/

namespace VectorizedSort

variable {α : Type} [Element α]

/-- What the slot `offset` slots behind `pos` holds once its pair is in order. -/
def inPair (mem : Array α) (pos offset : Nat) : α :=
  let a := peek mem (pos + 2 * (offset / 2))
  let b := peek mem (pos + 2 * (offset / 2) + 1)
  if offset % 2 = 0 then if Element.lt a b then a else b
  else if Element.lt a b then b else a

theorem peek_congr {mem mem' : Array α} {pos : Nat} (h : mem[pos]? = mem'[pos]?) :
    peek mem pos = peek mem' pos := by
  rw [peek, peek, Array.getD_eq_getD_getElem?, Array.getD_eq_getD_getElem?, h]

/-! ### By scalar code -/

namespace Scalar

theorem getElem?_exchangePair (mem : Array α) (pos i : Nat) :
    (exchangePair mem pos)[i]? =
      if pos ≤ i ∧ i < pos + 2 ∧ i < mem.size then some (inPair mem pos (i - pos))
      else mem[i]? := by
  rw [exchangePair, Array.getElem?_setIfInBounds, Array.getElem?_setIfInBounds,
    Array.size_setIfInBounds]
  -- of the two slots the later write is looked up first
  by_cases hslot : pos ≤ i ∧ i < pos + 2 ∧ i < mem.size
  · obtain ⟨hle, hlt, hin⟩ := hslot
    rw [if_pos (⟨hle, hlt, hin⟩ : pos ≤ i ∧ i < pos + 2 ∧ i < mem.size)]
    rcases Nat.lt_or_eq_of_le hle with hgt | rfl
    · obtain rfl : i = pos + 1 := by omega
      rw [if_pos rfl, if_pos hin, Nat.add_sub_cancel_left]
      rfl
    · rw [if_neg (Nat.succ_ne_self pos), if_pos rfl, if_pos hin, Nat.sub_self]
      rfl
  · rw [if_neg hslot]
    by_cases hin : i < mem.size
    · rw [if_neg (by omega : ¬ pos + 1 = i), if_neg (by omega : ¬ pos = i)]
    · have hnone : mem[i]? = none := Array.getElem?_eq_none (Nat.not_lt.mp hin)
      rw [hnone]
      split
      · subst i
        rw [if_neg hin]
      · split
        · subst i
          rw [if_neg hin]
        · rfl

theorem getElem?_exchangePairs (mem : Array α) (pos count i : Nat) :
    (exchangePairs mem pos count)[i]? =
      if pos ≤ i ∧ i < pos + 2 * count ∧ i < mem.size then some (inPair mem pos (i - pos))
      else mem[i]? := by
  induction count generalizing mem pos with
  | zero =>
    rw [if_neg (by omega)]
    rfl
  | succ count ih =>
    have hpair := getElem?_exchangePair mem pos
    have hsize : (exchangePair mem pos).size = mem.size := by simp [exchangePair]
    rw [exchangePairs, ih, hpair, hsize]
    by_cases hin : pos + 2 ≤ i ∧ i < pos + 2 + 2 * count ∧ i < mem.size
    · -- the first exchange does not reach the later pairs
      have hpeek (k : Nat) : peek (exchangePair mem pos) (pos + 2 + k) = peek mem (pos + 2 + k) :=
        peek_congr (by rw [hpair, if_neg (by omega)])
      have hoffset : i - pos = (i - (pos + 2)) + 2 := by omega
      have hhalf : (i - (pos + 2) + 2) / 2 = (i - (pos + 2)) / 2 + 1 := by omega
      have hstart : pos + 2 * ((i - (pos + 2)) / 2 + 1) =
          pos + 2 + 2 * ((i - (pos + 2)) / 2) := by omega
      rw [if_pos hin, if_pos (by omega), hoffset, inPair, inPair, hhalf, hstart, hpeek,
        Nat.add_assoc (pos + 2), hpeek, Nat.add_mod_right]
    · rw [if_neg hin]
      by_cases hfirst : pos ≤ i ∧ i < pos + 2 ∧ i < mem.size
      · rw [if_pos hfirst, if_pos (by omega)]
      · rw [if_neg hfirst, if_neg (by omega)]

/-- Exchanging more pairs goes on behind the first ones. -/
theorem exchangePairs_add (mem : Array α) (pos m n : Nat) :
    exchangePairs mem pos (m + n) =
      exchangePairs (exchangePairs mem pos m) (pos + 2 * m) n := by
  induction m generalizing mem pos with
  | zero => rw [Nat.zero_add, exchangePairs, Nat.mul_zero, Nat.add_zero]
  | succ m ih =>
    rw [Nat.succ_add, exchangePairs, ih, exchangePairs]
    congr 1
    omega

/-- Inside the array, a pair in order is kept and any other pair is swapped. -/
theorem exchangePair_eq {mem : Array α} {pos : Nat} (hpos : pos < mem.size)
    (h : pos + 1 < mem.size) :
    exchangePair mem pos =
      if Element.lt mem[pos] mem[pos + 1] then mem else mem.swapIfInBounds pos (pos + 1) := by
  have hfirst : peek mem pos = mem[pos] := by simp [peek, hpos]
  have hsecond : peek mem (pos + 1) = mem[pos + 1] := by simp [peek, h]
  rw [exchangePair, hfirst, hsecond]
  by_cases hlt : Element.lt mem[pos] mem[pos + 1]
  · -- both elements are written back to their own slots
    have hself (i : Nat) (hi : i < mem.size) : mem.setIfInBounds i mem[i] = mem := by
      rw [Array.setIfInBounds, dif_pos hi, Array.set_getElem_self]
    simp only [if_pos hlt]
    rw [hself pos hpos, hself (pos + 1) h]
  · simp only [if_neg hlt]
    apply Array.ext_getElem?
    intro i
    rw [getElem?_swapIfInBounds hpos h, Array.getElem?_setIfInBounds,
      Array.getElem?_setIfInBounds, Array.size_setIfInBounds, if_pos h, if_pos hpos]

theorem exchangePair_perm {mem : Array α} {pos : Nat} (h : pos + 1 < mem.size) :
    (exchangePair mem pos).Perm mem := by
  rw [exchangePair_eq (Nat.lt_of_succ_lt h) h]
  split
  · exact .rfl
  · exact swapIfInBounds_perm mem pos (pos + 1)

theorem exchangePairs_perm {mem : Array α} {pos count : Nat} (h : pos + 2 * count ≤ mem.size) :
    (exchangePairs mem pos count).Perm mem := by
  induction count generalizing mem pos with
  | zero => exact .rfl
  | succ count ih =>
    have hpair := exchangePair_perm (by omega : pos + 1 < mem.size)
    refine (ih ?_).trans hpair
    rw [hpair.size_eq]
    omega

end Scalar

/-! ### By shuffles -/

namespace Shuffle

omit [Element α] in
/-- A masked store under the mask of the first lanes writes just these. -/
theorem getElem?_maskedStore_firstLanes (mem : Array α) (pos n : Nat) (reg : Register α 8)
    (i : Nat) :
    (maskedStore mem pos (firstLanes n) reg)[i]? =
      if pos ≤ i ∧ i < pos + min n 8 ∧ i < mem.size then reg[i - pos]? else mem[i]? := by
  rw [maskedStore_firstLanes, getElem?_writeList, List.length_take, Vector.length_toList]
  split
  · rw [List.getElem?_take_of_lt (by omega), Vector.getElem?_toList]
  · rfl

omit [Element α] in
theorem getElem_permute (reg : Register α 8) (indices : Vector (Fin 8) 8) (i : Nat) (h : i < 8) :
    (permute reg indices)[i] = reg[indices[i].val] := by
  rw [permute, Vector.getElem_map]
  rfl

omit [Element α] in
theorem getElem_lowHalves (a b : Register α 8) (i : Nat) (h : i < 8) :
    (lowHalves a b)[i] = if h : i < 4 then a[i] else b[i - 4] := by
  rw [lowHalves, Vector.getElem_ofFn]

omit [Element α] in
theorem getElem_highHalves (a b : Register α 8) (i : Nat) (h : i < 8) :
    (highHalves a b)[i] = if h : i < 4 then a[i + 4] else b[i] := by
  rw [highHalves, Vector.getElem_ofFn]

/-- A lane of two registers laid end to end. -/
def laneOf (lo hi : Register α 8) (lane : Nat) (h : lane < 16) : α :=
  if h : lane < 8 then lo[lane] else hi[lane - 8]

theorem evenIndex : ∀ (i : Nat) (_ : i < 4),
    (#v[0, 2, 4, 6, 1, 3, 5, 7] : Vector (Fin 8) 8)[i].val = 2 * i := by decide

theorem oddIndex : ∀ (i : Nat) (_ : i < 4),
    (#v[0, 2, 4, 6, 1, 3, 5, 7] : Vector (Fin 8) 8)[i + 4].val = 2 * i + 1 := by decide

theorem alternatingIndex : ∀ (i : Nat) (_ : i < 8),
    (#v[0, 4, 1, 5, 2, 6, 3, 7] : Vector (Fin 8) 8)[i].val =
      if i % 2 = 0 then i / 2 else 4 + i / 2 := by decide

omit [Element α] in
/-- Taking pairs apart collects the even lanes and the odd lanes. -/
theorem getElem_deinterleave (lo hi : Register α 8) (i : Nat) (h : i < 8) :
    (deinterleave lo hi).1[i] = laneOf lo hi (2 * i) (by omega) ∧
      (deinterleave lo hi).2[i] = laneOf lo hi (2 * i + 1) (by omega) := by
  simp only [deinterleave, laneOf, getElem_lowHalves, getElem_highHalves]
  by_cases hlow : i < 4
  · simp only [dif_pos hlow, getElem_permute, evenIndex i hlow, oddIndex i hlow,
      dif_pos (by omega : 2 * i < 8), dif_pos (by omega : 2 * i + 1 < 8)]
    exact ⟨trivial, trivial⟩
  · -- the upper half comes from the second register
    obtain ⟨k, rfl⟩ : ∃ k, i = k + 4 := ⟨i - 4, by omega⟩
    simp only [dif_neg hlow, getElem_permute, Nat.add_sub_cancel, evenIndex k (by omega),
      oddIndex k (by omega), dif_neg (by omega : ¬ 2 * (k + 4) < 8),
      dif_neg (by omega : ¬ 2 * (k + 4) + 1 < 8)]
    exact ⟨by congr 1, by congr 1⟩

omit [Element α] in
/-- Putting pairs together alternates the lanes of the two registers. -/
theorem laneOf_interleave (x y : Register α 8) (i : Nat) (h : i < 16) :
    laneOf (interleave x y).1 (interleave x y).2 i h =
      if i % 2 = 0 then x[i / 2] else y[i / 2] := by
  simp only [interleave, laneOf]
  by_cases hlow : i < 8
  · rcases Nat.mod_two_eq_zero_or_one i with heven | hodd
    · simp only [dif_pos hlow, getElem_permute, alternatingIndex i hlow, if_pos heven,
        getElem_lowHalves]
      exact dif_pos (by omega)
    · have hne : ¬ i % 2 = 0 := by omega
      simp only [dif_pos hlow, getElem_permute, alternatingIndex i hlow, if_neg hne,
        getElem_lowHalves, Nat.add_sub_cancel_left]
      exact dif_neg (by omega)
  · obtain ⟨k, rfl⟩ : ∃ k, i = k + 8 := ⟨i - 8, by omega⟩
    rcases Nat.mod_two_eq_zero_or_one k with heven | hodd
    · have heven' : (k + 8) % 2 = 0 := by omega
      simp only [dif_neg hlow, getElem_permute, Nat.add_sub_cancel, alternatingIndex k (by omega),
        if_pos heven, if_pos heven', getElem_highHalves]
      rw [dif_pos (by omega)]
      congr 1
      omega
    · have hne : ¬ k % 2 = 0 := by omega
      have hne' : ¬ (k + 8) % 2 = 0 := by omega
      simp only [dif_neg hlow, getElem_permute, Nat.add_sub_cancel, alternatingIndex k (by omega),
        if_neg hne, if_neg hne', getElem_highHalves]
      rw [dif_neg (by omega)]
      congr 1
      omega

/-- The two loads under the masks of `count` pairs hold the slots of these pairs. -/
theorem laneOf_loadOrZero (mem : Array α) (pos count i : Nat) (h : i < 16) (hi : i < 2 * count) :
    laneOf (loadOrZero mem pos (firstLanes (2 * count)))
        (loadOrZero mem (pos + 8) (firstLanes (2 * count - 8))) i h = peek mem (pos + i) := by
  rw [laneOf]
  split
  · simp only [loadOrZero, firstLanes, Vector.getElem_ofFn, Fin.getElem_fin]
    rw [if_pos (decide_eq_true (by omega))]
  · simp only [loadOrZero, firstLanes, Vector.getElem_ofFn, Fin.getElem_fin]
    rw [if_pos (decide_eq_true (by omega))]
    congr 1
    omega

/-- The registers of pairs with each pair put in order. -/
def orderedPairs (lo hi : Register α 8) : Register α 8 × Register α 8 :=
  let (a, b) := deinterleave lo hi
  interleave (blend b a (above b a)) (blend a b (above b a))

/-- Both lanes of a pair follow from one comparison. -/
theorem laneOf_orderedPairs (lo hi : Register α 8) (i : Nat) (h : i < 16) :
    laneOf (orderedPairs lo hi).1 (orderedPairs lo hi).2 i h =
      let a := laneOf lo hi (2 * (i / 2)) (by omega)
      let b := laneOf lo hi (2 * (i / 2) + 1) (by omega)
      if i % 2 = 0 then if Element.lt a b then a else b
      else if Element.lt a b then b else a := by
  obtain ⟨ha, hb⟩ := getElem_deinterleave lo hi (i / 2) (by omega)
  simp only [orderedPairs, laneOf_interleave]
  simp [blend, above, ha, hb]

theorem exchangePairs_eq_maskedStore (mem : Array α) (pos count : Nat) :
    exchangePairs mem pos count =
      let pairs := orderedPairs (loadOrZero mem pos (firstLanes (2 * count)))
        (loadOrZero mem (pos + 8) (firstLanes (2 * count - 8)))
      maskedStore (maskedStore mem pos (firstLanes (2 * count)) pairs.1) (pos + 8)
        (firstLanes (2 * count - 8)) pairs.2 := rfl

theorem getElem?_exchangePairs (mem : Array α) (pos : Nat) {count : Nat} (hcount : count ≤ 8)
    (i : Nat) :
    (exchangePairs mem pos count)[i]? =
      if pos ≤ i ∧ i < pos + 2 * count ∧ i < mem.size then some (inPair mem pos (i - pos))
      else mem[i]? := by
  have hlane (k : Nat) (h : k < 16) (hin : k < 2 * count) :
      laneOf
        (orderedPairs (loadOrZero mem pos (firstLanes (2 * count)))
          (loadOrZero mem (pos + 8) (firstLanes (2 * count - 8)))).1
        (orderedPairs (loadOrZero mem pos (firstLanes (2 * count)))
          (loadOrZero mem (pos + 8) (firstLanes (2 * count - 8)))).2 k h = inPair mem pos k := by
    rw [laneOf_orderedPairs, inPair]
    simp only
    rw [laneOf_loadOrZero mem pos count _ _ (by omega),
      laneOf_loadOrZero mem pos count _ _ (by omega)]
    rfl
  rw [exchangePairs_eq_maskedStore]
  simp only
  generalize orderedPairs (loadOrZero mem pos (firstLanes (2 * count)))
    (loadOrZero mem (pos + 8) (firstLanes (2 * count - 8))) = pairs at hlane ⊢
  have hsize : (maskedStore mem pos (firstLanes (2 * count)) pairs.1).size = mem.size := by
    simp [maskedStore]
  rw [getElem?_maskedStore_firstLanes, getElem?_maskedStore_firstLanes, hsize]
  by_cases hin : pos ≤ i ∧ i < pos + 2 * count ∧ i < mem.size
  · -- the pairs that do not fit into the first register are stored from the second one
    rw [if_pos hin, ← hlane (i - pos) (by omega) (by omega), laneOf]
    by_cases hlow : i - pos < 8
    · rw [if_neg (by omega), if_pos (by omega), dif_pos hlow, Vector.getElem?_eq_getElem]
    · have hslot : i - (pos + 8) = i - pos - 8 := by omega
      rw [if_pos (by omega), dif_neg hlow, hslot, Vector.getElem?_eq_getElem]
  · rw [if_neg hin, if_neg (by omega), if_neg (by omega)]

end Shuffle

namespace Lanes

/-- Every lane set puts pairs in order as scalar code does. -/
theorem exchangePairs_eq (lanes : Lanes) (mem : Array α) (pos : Nat) {count : Nat}
    (hcount : count ≤ lanes.width) :
    lanes.exchangePairs mem pos count = Scalar.exchangePairs mem pos count := by
  cases lanes with
  | portable width width_pos => rfl
  | avx2 =>
    apply Array.ext_getElem?
    intro i
    rw [Scalar.getElem?_exchangePairs]
    exact Shuffle.getElem?_exchangePairs mem pos hcount i

end Lanes

end VectorizedSort
