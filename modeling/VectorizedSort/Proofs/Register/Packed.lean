import VectorizedSort.Proofs.Contents
import VectorizedSort.Proofs.Register.Permitted

/-! # The splitting store as two compressing stores

One loop with two write cursors does what two loops with one cursor each do: the unselected lanes
are stored next to each other on the left and the selected ones next to each other on the right, in
either order. The register was read before, so its own slots may be written. As long as the two
written ranges do not overlap, no lane is lost and every slot outside of them is as before. -/

namespace VectorizedSort

variable {α : Type} {width : Nat}

/-! ### Writing lists -/

/-- Two lists may be written in either order, unless a slot belongs to both. -/
theorem writeList_comm (mem : Array α) {left right : Nat} (xs ys : List α)
    (h : ∀ slot, left ≤ slot → slot < left + xs.length → right ≤ slot →
      ¬ slot < right + ys.length) :
    writeList (writeList mem left xs) right ys = writeList (writeList mem right ys) left xs := by
  apply Array.ext_getElem?
  intro i
  rw [getElem?_writeList, getElem?_writeList, getElem?_writeList, getElem?_writeList,
    size_writeList, size_writeList]
  have hslot := h i
  by_cases hleft : left ≤ i ∧ i < left + xs.length ∧ i < mem.size
  · rw [if_pos hleft, if_pos hleft, if_neg (by omega)]
  · rw [if_neg hleft, if_neg hleft]

theorem writeList_append (mem : Array α) (pos : Nat) (xs ys : List α) :
    writeList mem pos (xs ++ ys) = writeList (writeList mem pos xs) (pos + xs.length) ys := by
  induction xs generalizing mem pos with
  | nil => rfl
  | cons x xs ih =>
    rw [List.cons_append, writeList, ih, writeList, List.length_cons, Nat.add_right_comm,
      Nat.add_assoc pos]

/-- The slots a list was written to hold that list, if the memory has them. -/
theorem slice_writeList_of_subset (mem : Array α) {pos : Nat} {xs : List α}
    (h : Finset.Ico pos (pos + xs.length) ⊆ Finset.range mem.size) :
    slice (writeList mem pos xs) pos (pos + xs.length) = xs.toArray := by
  cases xs with
  | nil => exact slice_self mem pos
  | cons x xs =>
    -- the last slot is inside, so all of them are
    have hlast : pos + xs.length ∈ Finset.range mem.size :=
      h (Finset.mem_Ico.mpr ⟨Nat.le_add_right pos _, Nat.lt_succ_self _⟩)
    exact slice_writeList_self mem (Finset.mem_range.mp hlast)

/-! ### The compressing store -/

namespace Scalar

theorem get_complement (mask : Mask width) (lane : Fin width) :
    (complement mask).get lane = !mask.get lane := Vector.getElem_map _ lane.isLt

theorem selectedOf_complement (mask : Mask width) (reg : Register α width) :
    selectedOf (taggedLanes (complement mask) reg) = unselectedOf (taggedLanes mask reg) := by
  rw [selectedOf_taggedLanes, unselectedOf_taggedLanes, funext (get_complement mask)]

theorem unselectedOf_complement (mask : Mask width) (reg : Register α width) :
    unselectedOf (taggedLanes (complement mask) reg) = selectedOf (taggedLanes mask reg) := by
  have hget (lane : Fin width) : (!(complement mask).get lane) = mask.get lane := by
    rw [get_complement, Bool.not_not]
  rw [selectedOf_taggedLanes, unselectedOf_taggedLanes, funext hget]

/-- The write cursor writes the selected elements and counts them. -/
theorem pack_eq (mem : Array α) (pos written : Nat) (lanes : List (Bool × α)) :
    pack mem pos written lanes =
      ⟨writeList mem (pos + written) (selectedOf lanes), written + (selectedOf lanes).length⟩ := by
  induction lanes generalizing mem written with
  | nil => rfl
  | cons lane lanes ih =>
    obtain ⟨_ | _, x⟩ := lane
    · rw [pack, ih, selectedOf_cons_false]
    · rw [pack, ih, selectedOf_cons_true, writeList, List.length_cons, Nat.add_right_comm written]
      rfl

theorem compressStore_eq (mem : Array α) (pos : Nat) (mask : Mask width)
    (reg : Register α width) :
    compressStore mem pos mask reg =
      ⟨writeList mem pos (selectedOf (taggedLanes mask reg)), count mask⟩ := by
  rw [compressStore, pack_eq, Nat.add_zero, Nat.zero_add, ← count_eq_length]

/-! ### The splitting store -/

/-- What a splitting store requires: the memory has the slots that are written, and no slot is
written for both groups of lanes. -/
structure SplitContract (mem : Array α) (left right : Nat) (mask : Mask width) : Prop where
  left_valid : leftSlots left mask ⊆ Finset.range mem.size
  right_valid : rightSlots right mask ⊆ Finset.range mem.size
  disjoint : Disjoint (leftSlots left mask) (rightSlots right mask)

/-- What a splitting store leaves: each group of lanes stands in its own slots, in lane order, and
every other slot is as before. -/
structure SplitInto (mem : Array α) (left right : Nat) (mask : Mask width) (reg : Register α width)
    (stored : Array α) : Prop where
  size_eq : stored.size = mem.size
  unselected : slice stored left (left + (width - count mask)) =
    (unselectedOf (taggedLanes mask reg)).toArray
  selected : slice stored (right + (width - count mask)) (right + width) =
    (selectedOf (taggedLanes mask reg)).toArray
  frame : ∀ i, i ∉ leftSlots left mask → i ∉ rightSlots right mask → stored[i]? = mem[i]?

section Split

variable {mem : Array α} {left right : Nat} {mask : Mask width} (reg : Register α width)

/-- Two cursors do what one cursor on the left does and then one on the right. -/
theorem mem_splitStore_of_disjoint (mem : Array α)
    (h : Disjoint (leftSlots left mask) (rightSlots right mask)) :
    (splitStore mem left right mask reg).mem =
      writeList (writeList mem left (unselectedOf (taggedLanes mask reg)))
        (right + (unselectedOf (taggedLanes mask reg)).length)
        (selectedOf (taggedLanes mask reg)) := by
  refine mem_splitStore_of_not_both mem mask reg fun slot hge hlt hright hlast => ?_
  exact Finset.disjoint_left.mp h (Finset.mem_Ico.mpr ⟨hge, hlt⟩)
    (Finset.mem_Ico.mpr ⟨hright, hlast⟩)

/-- The slots on the right, counted by the lanes. -/
theorem rightSlots_eq (right : Nat) (mask : Mask width) (reg : Register α width) :
    rightSlots right mask =
      Finset.Ico (right + (unselectedOf (taggedLanes mask reg)).length)
        (right + (unselectedOf (taggedLanes mask reg)).length +
          (selectedOf (taggedLanes mask reg)).length) := by
  rw [rightSlots, sub_count_eq_length mask reg, Nat.add_assoc, length_unselectedOf_add,
    length_taggedLanes]

theorem leftSlots_eq (left : Nat) (mask : Mask width) (reg : Register α width) :
    leftSlots left mask =
      Finset.Ico left (left + (unselectedOf (taggedLanes mask reg)).length) := by
  rw [leftSlots, sub_count_eq_length mask reg]

/-- The cursor on the right may as well go first. -/
theorem mem_splitStore_of_disjoint_comm (mem : Array α)
    (h : Disjoint (leftSlots left mask) (rightSlots right mask)) :
    (splitStore mem left right mask reg).mem =
      writeList
        (writeList mem (right + (unselectedOf (taggedLanes mask reg)).length)
          (selectedOf (taggedLanes mask reg)))
        left (unselectedOf (taggedLanes mask reg)) := by
  rw [mem_splitStore_of_disjoint reg mem h]
  rw [leftSlots_eq left mask reg, rightSlots_eq right mask reg] at h
  -- no slot is written twice
  refine writeList_comm mem _ _ fun slot hge hlt hright hlast => ?_
  exact Finset.disjoint_left.mp h (Finset.mem_Ico.mpr ⟨hge, hlt⟩)
    (Finset.mem_Ico.mpr ⟨hright, hlast⟩)

theorem SplitContract.splitInto (h : SplitContract mem left right mask) :
    SplitInto mem left right mask reg (splitStore mem left right mask reg).mem where
  size_eq := size_deal ..
  unselected := by
    -- nothing is written to the slots on the left after their own lanes
    have hvalid := h.left_valid
    rw [leftSlots_eq left mask reg] at hvalid
    rw [mem_splitStore_of_disjoint_comm reg mem h.disjoint, sub_count_eq_length mask reg]
    exact slice_writeList_of_subset _ (by rwa [size_writeList])
  selected := by
    have hvalid := h.right_valid
    rw [rightSlots_eq right mask reg] at hvalid
    have hend : right + width = right + (unselectedOf (taggedLanes mask reg)).length +
        (selectedOf (taggedLanes mask reg)).length := by
      rw [Nat.add_assoc, length_unselectedOf_add, length_taggedLanes]
    rw [mem_splitStore_of_disjoint reg mem h.disjoint, sub_count_eq_length mask reg, hend]
    exact slice_writeList_of_subset _ (by rwa [size_writeList])
  frame i hleft hright := by
    rw [leftSlots_eq left mask reg, Finset.mem_Ico] at hleft
    rw [rightSlots_eq right mask reg, Finset.mem_Ico] at hright
    rw [mem_splitStore_of_disjoint reg mem h.disjoint, getElem?_writeList, if_neg (by tauto),
      getElem?_writeList, if_neg (by tauto)]

/-- Where both groups go to the slots of one register, they fill these. -/
theorem SplitInto.slice_eq_append {stored : Array α} {pos : Nat}
    (h : SplitInto mem pos pos mask reg stored) :
    slice stored pos (pos + width) =
      (unselectedOf (taggedLanes mask reg) ++ selectedOf (taggedLanes mask reg)).toArray := by
  rw [← slice_append_slice stored (Nat.le_add_right pos (width - count mask)) (by omega),
    h.unselected, h.selected, List.append_toArray]

end Split

/-- Under its contract, the splitting store has the effect of two compressing stores, of the
unselected lanes to the left and of the selected ones to the right, in either order. It counts the
selected lanes, as a compressing store counts those of its own mask, puts each group into its slots
in lane order, touches no other slot and changes none. Splitting a register in place leaves its
unselected lanes followed by its selected ones. -/
theorem splitStore_eq_compressStores {mem : Array α} {left right : Nat} {mask : Mask width}
    (reg : Register α width) (h : SplitContract mem left right mask) :
    let split := splitStore mem left right mask reg
    let toLeft (mem : Array α) := compressStore mem left (complement mask) reg
    let toRight (mem : Array α) := compressStore mem (right + (width - count mask)) mask reg
    split.mem = (toRight (toLeft mem).mem).mem ∧ split.mem = (toLeft (toRight mem).mem).mem ∧
      split.selected = count mask ∧
      (∀ (mem : Array α) (pos : Nat) (mask : Mask width),
        (compressStore mem pos mask reg).selected = count mask) ∧
      SplitInto mem left right mask reg split.mem ∧
      splitStoreIn (leftSlots left mask ∪ rightSlots right mask) mem left right mask reg =
        some split ∧
      (left = right → slice split.mem left (left + width) =
        (unselectedOf (taggedLanes mask reg) ++ selectedOf (taggedLanes mask reg)).toArray) := by
  have hinto := h.splitInto reg
  refine ⟨?_, ?_, rfl, fun mem pos mask => ?_, hinto, splitStoreIn_eq_some mem left right mask reg,
    ?_⟩
  · dsimp only
    rw [mem_splitStore_of_disjoint reg mem h.disjoint, compressStore_eq, compressStore_eq,
      selectedOf_complement, sub_count_eq_length mask reg]
  · dsimp only
    rw [mem_splitStore_of_disjoint_comm reg mem h.disjoint, compressStore_eq, compressStore_eq,
      selectedOf_complement, sub_count_eq_length mask reg]
  · rw [compressStore_eq]
  · rintro rfl
    exact hinto.slice_eq_append reg

/-- A register is split in the very slots it was loaded from. -/
theorem splitStore_eq_compressStores_in_place :
    let mem : Array Int32 := #[5, 4, 8, 2, 6, 9]
    let mask : Mask 4 := #v[false, true, false, true]
    SplitContract mem 1 1 mask ∧
      slice (splitStore mem 1 1 mask (load 4 mem 1)).mem 1 5 = #[4, 2, 8, 6] := by
  intro mem mask
  have hcontract : SplitContract mem 1 1 mask := ⟨by decide, by decide, by decide⟩
  obtain ⟨-, -, -, -, -, -, hplace⟩ := splitStore_eq_compressStores (load 4 mem 1) hcontract
  exact ⟨hcontract, hplace rfl⟩

end Scalar

end VectorizedSort
