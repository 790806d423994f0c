import VectorizedSort.Proofs.Partition.Extremes
import VectorizedSort.Proofs.Register.Packed
import VectorizedSort.Proofs.Sort.Whole

/-! # Shuffles against scalar code

The AVX2 lane set and scalar code on eight lanes share almost nothing: the one looks rows up in a
table, complements reversed compares, takes pairs apart and blends them, the other walks the lanes.
Operation by operation they answer the same, whatever stands in the registers and in the memory,
and they touch the same slots. Only the extremes of a whole register may differ, as the two zeros
of a float do, because the lanes are combined in another order. -/

namespace VectorizedSort

open Element

variable {α : Type}

/-- Scalar code on registers with the eight lanes of AVX2. -/
abbrev Lanes.eight : Lanes := .portable avx2.width avx2.width_pos

/-! ### The table of permutations -/

/-- A row of the table as it is filled: one cursor moves over its entries while two passes are made
over the lanes, the first for the lanes whose bit is clear and the second for the others. -/
def filledRow (bits : Nat) : Array Nat :=
  let pass (bit : Bool) :=
    (List.finRange 8).map fun lane => (bits.testBit lane.val == bit, lane.val)
  let clear := Scalar.pack (Array.replicate 8 0) 0 0 (pass false)
  (Scalar.pack clear.mem 0 clear.selected (pass true)).mem

theorem selectedOf_map_finRange (p : Fin 8 → Bool) :
    selectedOf ((List.finRange 8).map fun lane => (p lane, lane.val)) =
      ((List.finRange 8).filter p).map Fin.val := by
  rw [selectedOf, List.filter_map, List.map_map]
  rfl

/-- Every row is filled with the lanes whose bit is clear and then with the others, each group in
lane order. -/
theorem filledRow_eq (bits : Nat) :
    filledRow bits = ((Shuffle.clearThenSet bits).map Fin.val).toArray := by
  have hlength : ((Shuffle.clearThenSet bits).map Fin.val).length = 8 := by
    rw [List.length_map, Shuffle.length_clearThenSet]
  have hfits : 0 + ((Shuffle.clearThenSet bits).map Fin.val).length ≤
      (Array.replicate 8 0).size := by
    rw [hlength, Array.size_replicate]
  have hrow := slice_writeList_self _ hfits
  -- the two passes fill the whole row
  rw [hlength, slice, Array.extract_eq_self_of_le (by simp)] at hrow
  rw [← hrow, Shuffle.clearThenSet, List.map_append, writeList_append, Nat.zero_add]
  simp only [filledRow, Scalar.pack_eq, selectedOf_map_finRange, beq_false, beq_true, Nat.zero_add]

namespace Shuffle

/-- Under the complement of its bits, a mask's selected lanes are the clear ones. -/
theorem compactingRow_xor (mask : Mask 8) :
    compactingRow (maskBits mask ^^^ 0xff) = compactingRow (maskBits (Scalar.complement mask)) := by
  -- only the bits of the eight lanes are looked at
  have hall : ∀ lane : Fin 8, (0xff : Nat).testBit lane.val = true := by decide
  have hbit (lane : Fin 8) : (maskBits mask ^^^ 0xff).testBit lane.val =
      (maskBits (Scalar.complement mask)).testBit lane.val := by
    rw [Nat.testBit_xor, testBit_maskBits, testBit_maskBits, hall, Scalar.get_complement,
      Bool.xor_true]
  have hlists : clearThenSet (maskBits mask ^^^ 0xff) =
      clearThenSet (maskBits (Scalar.complement mask)) := by
    rw [clearThenSet, clearThenSet, funext hbit, funext fun lane => congrArg not (hbit lane)]
  rw [compactingRow, compactingRow, hlists]

theorem compressStore_eq (mem : Array α) (pos : Nat) (mask : Mask 8) (reg : Register α 8) :
    compressStore mem pos mask reg =
      ⟨writeList mem pos (selectedOf (taggedLanes mask reg)), Scalar.count mask⟩ := by
  have hcount := Scalar.count_eq_length mask reg
  simp only [compressStore, popcount_eq_count]
  rw [compactingRow_xor, maskedStore_firstLanes, toList_permute_compactingRow,
    Scalar.unselectedOf_complement, hcount, List.take_left]

end Shuffle

/-! ### Operation by operation -/

/-- Whatever the registers, the masks and the memory are, the AVX2 lane set and scalar code on eight
lanes give the same registers, masks, counts and memory. -/
structure ShufflesAgree (α : Type) [Element α] : Prop where
  atLeast : ∀ a b : Register α 8, Lanes.avx2.atLeast a b = Lanes.eight.atLeast a b
  above : ∀ a b : Register α 8, Lanes.avx2.above a b = Lanes.eight.above a b
  complement : ∀ mask : Mask 8, Lanes.avx2.complement mask = Lanes.eight.complement mask
  firstLanes : ∀ n, Lanes.avx2.firstLanes n = Lanes.eight.firstLanes n
  count : ∀ mask : Mask 8, Lanes.avx2.count mask = Lanes.eight.count mask
  lanewiseMin : ∀ a b : Register α 8, Lanes.avx2.lanewiseMin a b = Lanes.eight.lanewiseMin a b
  lanewiseMax : ∀ a b : Register α 8, Lanes.avx2.lanewiseMax a b = Lanes.eight.lanewiseMax a b
  maskedLoad : ∀ (existing : Register α 8) (mask : Mask 8) mem pos,
    Lanes.avx2.maskedLoad existing mask mem pos = Lanes.eight.maskedLoad existing mask mem pos
  maskedStore : ∀ (mem : Array α) pos (mask : Mask 8) (reg : Register α 8),
    Lanes.avx2.maskedStore mem pos mask reg = Lanes.eight.maskedStore mem pos mask reg
  compressStore : ∀ (mem : Array α) pos (mask : Mask 8) (reg : Register α 8),
    Lanes.avx2.compressStore mem pos mask reg = Lanes.eight.compressStore mem pos mask reg
  splitStore : ∀ (mem : Array α) left right (mask : Mask 8) (reg : Register α 8),
    Disjoint (leftSlots left mask) (rightSlots right mask) →
      Lanes.avx2.splitStore mem left right mask reg =
        Lanes.eight.splitStore mem left right mask reg
  exchangePairs : ∀ (mem : Array α) pos count, count ≤ 8 →
    Lanes.avx2.exchangePairs mem pos count = Lanes.eight.exchangePairs mem pos count

theorem Shuffle.complement_eq (mask : Mask 8) :
    Shuffle.complement mask = Scalar.complement mask := by
  apply Vector.ext
  intro i hi
  simp [Shuffle.complement, Scalar.complement, broadcast]

theorem Shuffle.firstLanes_eq (n : Nat) : Shuffle.firstLanes n = Scalar.firstLanes 8 n := by
  apply Vector.ext
  intro i hi
  simp [Shuffle.firstLanes, Scalar.firstLanes]

section

variable [Element α]

/-- What is loaded for the lanes that are left out is blended away again. -/
theorem Shuffle.maskedLoad_eq (existing : Register α 8) (mask : Mask 8) (mem : Array α)
    (pos : Nat) :
    Shuffle.maskedLoad existing mask mem pos = Scalar.maskedLoad existing mask mem pos := by
  apply Vector.ext
  intro i hi
  simp only [Shuffle.maskedLoad, Scalar.maskedLoad, Shuffle.blend, Shuffle.loadOrZero,
    Vector.getElem_ofFn, Fin.getElem_fin]
  cases mask[i] <;> rfl

theorem shufflesAgree : ShufflesAgree α where
  atLeast a b := by
    apply Vector.ext
    intro i hi
    exact (Shuffle.getElem_atLeast a b i hi).trans (Scalar.getElem_atLeast a b i hi).symm
  above _ _ := rfl
  complement := Shuffle.complement_eq
  firstLanes := Shuffle.firstLanes_eq
  count := Shuffle.popcount_eq_count
  lanewiseMin _ _ := rfl
  lanewiseMax _ _ := rfl
  maskedLoad := Shuffle.maskedLoad_eq
  maskedStore _ _ _ _ := rfl
  compressStore mem pos mask reg :=
    (Shuffle.compressStore_eq mem pos mask reg).trans
      (Scalar.compressStore_eq mem pos mask reg).symm
  splitStore mem left right mask reg h := by
    have hmem := Shuffle.mem_splitStore mem left right mask reg
    rw [← Scalar.mem_splitStore_of_disjoint reg mem h] at hmem
    exact congrArg₂ Compacted.mk hmem (Shuffle.popcount_eq_count mask)
  exchangePairs mem pos _ hcount := Lanes.exchangePairs_eq .avx2 mem pos hcount

/-! ### Extremes -/

/-- The smallest lanes that two lane sets find compare equal. -/
theorem eqv_reduceMin {reg : Register α 8} (h : ∀ x ∈ reg.toList, isOrdered x) :
    eqv (Lanes.avx2.reduceMin reg) (Lanes.eight.reduceMin reg) := by
  have hshuffle := Lanes.isBest_reduceWith preference_lt .avx2 reg h
  have hscalar := Lanes.isBest_reduceWith preference_lt .eight reg h
  -- both are lanes of the register, and neither is above any other lane
  exact eqv_iff_le_le.mpr ⟨hshuffle.noWorse_mem _ hscalar.mem, hscalar.noWorse_mem _ hshuffle.mem⟩

/-- So do the biggest ones. -/
theorem eqv_reduceMax {reg : Register α 8} (h : ∀ x ∈ reg.toList, isOrdered x) :
    eqv (Lanes.avx2.reduceMax reg) (Lanes.eight.reduceMax reg) := by
  have hshuffle := Lanes.isBest_reduceWith preference_gt .avx2 reg h
  have hscalar := Lanes.isBest_reduceWith preference_gt .eight reg h
  exact eqv_iff_le_le.mpr ⟨hscalar.noWorse_mem _ hshuffle.mem, hshuffle.noWorse_mem _ hscalar.mem⟩

end

/-- Integers that compare equal are equal. -/
theorem eq_of_eqv_int32 {a b : Int32} (h : eqv a b) : a = b := by
  obtain ⟨i, ha, hb⟩ := eqv_iff.mp h
  exact Int32.toInt_inj.mp (Option.some_inj.mp (ha.trans hb.symm))

/-- The AVX2 lane set does in every operation what scalar code on eight lanes does, and both touch
the slots they address and no others. A row of the table lists the lanes whose bit is clear before
those whose bit is set, each group in lane order, and moves the unselected lanes of a register in
front of the selected ones. The extremes of a register are the same for integers, and compare equal
for floats none of which is a NaN. -/
theorem shuffles_agree_with_scalar_code :
    (∀ (α : Type) [Element α],
      ShufflesAgree α ∧ Lanes.avx2.TouchesAddressed α ∧ Lanes.eight.TouchesAddressed α) ∧
    (∀ bits, filledRow bits = (Shuffle.compactingRow bits).toArray.map Fin.val ∧
      (Shuffle.compactingRow bits).toList =
        (List.finRange 8).filter (fun lane => !bits.testBit lane.val) ++
          (List.finRange 8).filter fun lane => bits.testBit lane.val) ∧
    (∀ {α : Type} (mask : Mask 8) (reg : Register α 8),
      (Shuffle.permute reg (Shuffle.compactingRow (Shuffle.maskBits mask))).toList =
        unselectedOf (taggedLanes mask reg) ++ selectedOf (taggedLanes mask reg)) ∧
    (∀ reg : Register Int32 8, Lanes.avx2.reduceMin reg = Lanes.eight.reduceMin reg ∧
      Lanes.avx2.reduceMax reg = Lanes.eight.reduceMax reg) ∧
    ∀ reg : Register Binary32 8, (∀ x ∈ reg.toList, x.isNaN = false) →
      eqv (Lanes.avx2.reduceMin reg) (Lanes.eight.reduceMin reg) ∧
        eqv (Lanes.avx2.reduceMax reg) (Lanes.eight.reduceMax reg) := by
  refine ⟨fun α _ => ⟨shufflesAgree, Lanes.touchesAddressed α _, Lanes.touchesAddressed α _⟩,
    fun bits => ⟨?_, Shuffle.toList_compactingRow bits⟩, Shuffle.toList_permute_compactingRow,
    fun reg => ?_, fun reg hreg => ?_⟩
  · rw [filledRow_eq, ← Shuffle.toList_compactingRow, ← List.map_toArray]
    rfl
  · have hordered : ∀ x ∈ reg.toList, isOrdered x := fun x _ => isOrdered_of_isInteger rfl x
    exact ⟨eq_of_eqv_int32 (eqv_reduceMin hordered), eq_of_eqv_int32 (eqv_reduceMax hordered)⟩
  · have hordered : AllOrdered reg.toArray :=
      allOrdered_iff_not_isNaN.mpr fun x hx => hreg x (Array.mem_toList_iff.mpr hx)
    have hlanes : ∀ x ∈ reg.toList, isOrdered x := fun x hx =>
      hordered x (Array.mem_toList_iff.mp hx)
    exact ⟨eqv_reduceMin hlanes, eqv_reduceMax hlanes⟩

/-- Two zeros, whose order decides nothing, and a memory with two NaNs, one of which takes part in
the exchange of five pairs. -/
theorem shuffles_agree_with_scalar_code_of_floats :
    let reg : Register Binary32 8 :=
      #v[⟨0⟩, .infinity, ⟨1⟩, ⟨0x3f800000⟩, ⟨0x80000000⟩, ⟨2⟩, ⟨0x7f7fffff⟩, ⟨0⟩]
    let mem : Array Binary32 :=
      #[.quietNaN, ⟨0⟩, ⟨0x80000000⟩, ⟨0⟩, ⟨3⟩, ⟨2⟩, ⟨1⟩, ⟨1⟩, ⟨5⟩, ⟨4⟩, ⟨0x7fc00001⟩]
    let mask : Mask 8 := #v[true, false, true, true, false, false, true, false]
    (∀ x ∈ reg.toList, x.isNaN = false) ∧
      eqv (Lanes.avx2.reduceMin reg) (Lanes.eight.reduceMin reg) ∧
      Lanes.avx2.exchangePairs mem 0 5 = Lanes.eight.exchangePairs mem 0 5 ∧
      Disjoint (leftSlots 0 mask) (rightSlots 2 mask) ∧
      Lanes.avx2.splitStore mem 0 2 mask reg = Lanes.eight.splitStore mem 0 2 mask reg := by
  intro reg mem mask
  have hreg : ∀ x ∈ reg.toList, x.isNaN = false := by decide
  have hdisjoint : Disjoint (leftSlots 0 mask) (rightSlots 2 mask) := by decide
  obtain ⟨hall, -, -, -, hextremes⟩ := shuffles_agree_with_scalar_code
  obtain ⟨hagree, -, -⟩ := hall Binary32
  exact ⟨hreg, (hextremes reg hreg).1, hagree.exchangePairs mem 0 5 (by decide), hdisjoint,
    hagree.splitStore mem 0 2 mask reg hdisjoint⟩

end VectorizedSort
