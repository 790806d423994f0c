import VectorizedSort.Register.Lanes

/-! # What the splitting store writes

Both ways to carry out the splitting store write two lists: the unselected lanes in lane order from
the left destination on, and the selected lanes in lane order behind a gap of as many slots at the
right destination. The scalar cursors write them interleaved and the shuffles one after the other,
which is the same thing as long as the two written ranges do not overlap. -/

namespace VectorizedSort

variable {α : Type} {width : Nat}

/-! ### Selected and unselected lanes -/

/-- The elements whose bit is set, in lane order. -/
def selectedOf (lanes : List (Bool × α)) : List α := (lanes.filter (·.1)).map (·.2)

/-- The elements whose bit is clear, in lane order. -/
def unselectedOf (lanes : List (Bool × α)) : List α := (lanes.filter (!·.1)).map (·.2)

@[simp] theorem selectedOf_cons_true (x : α) (lanes : List (Bool × α)) :
    selectedOf ((true, x) :: lanes) = x :: selectedOf lanes := rfl

@[simp] theorem selectedOf_cons_false (x : α) (lanes : List (Bool × α)) :
    selectedOf ((false, x) :: lanes) = selectedOf lanes := rfl

@[simp] theorem unselectedOf_cons_true (x : α) (lanes : List (Bool × α)) :
    unselectedOf ((true, x) :: lanes) = unselectedOf lanes := rfl

@[simp] theorem unselectedOf_cons_false (x : α) (lanes : List (Bool × α)) :
    unselectedOf ((false, x) :: lanes) = x :: unselectedOf lanes := rfl

theorem length_unselectedOf_add (lanes : List (Bool × α)) :
    (unselectedOf lanes).length + (selectedOf lanes).length = lanes.length := by
  induction lanes with
  | nil => rfl
  | cons lane lanes ih =>
    obtain ⟨_ | _, x⟩ := lane
    · rw [unselectedOf_cons_false, selectedOf_cons_false, List.length_cons, List.length_cons]
      omega
    · rw [unselectedOf_cons_true, selectedOf_cons_true, List.length_cons, List.length_cons]
      omega

theorem toList_eq_map_finRange (reg : Register α width) :
    reg.toList = (List.finRange width).map reg.get := by
  apply List.ext_getElem
  · simp
  · intro i h₁ h₂
    rw [Vector.getElem_toList, List.getElem_map, List.getElem_finRange]
    rfl

theorem get_mem_toList (reg : Register α width) (lane : Fin width) : reg.get lane ∈ reg.toList :=
  Vector.mem_toList_iff.mpr (Vector.getElem_mem lane.isLt)

/-- The elements of a register are those of its lanes. -/
theorem exists_lane_of_mem {reg : Register α width} {x : α} (h : x ∈ reg.toList) :
    ∃ lane, reg.get lane = x := by
  obtain ⟨i, hi, rfl⟩ := List.getElem_of_mem h
  rw [Vector.length_toList] at hi
  exact ⟨⟨i, hi⟩, (Vector.getElem_toList _).symm⟩

theorem taggedLanes_eq_map (mask : Mask width) (reg : Register α width) :
    taggedLanes mask reg = (List.finRange width).map fun lane => (mask.get lane, reg.get lane) := by
  apply List.ext_getElem
  · simp [taggedLanes]
  · intro i h₁ h₂
    rw [List.getElem_map, List.getElem_finRange]
    simp only [taggedLanes, List.getElem_zip, Vector.getElem_toList]
    rfl

@[simp] theorem length_taggedLanes (mask : Mask width) (reg : Register α width) :
    (taggedLanes mask reg).length = width := by
  rw [taggedLanes_eq_map, List.length_map, List.length_finRange]

theorem selectedOf_taggedLanes (mask : Mask width) (reg : Register α width) :
    selectedOf (taggedLanes mask reg) =
      ((List.finRange width).filter mask.get).map reg.get := by
  rw [selectedOf, taggedLanes_eq_map, List.filter_map, List.map_map]
  rfl

theorem unselectedOf_taggedLanes (mask : Mask width) (reg : Register α width) :
    unselectedOf (taggedLanes mask reg) =
      ((List.finRange width).filter fun lane => !mask.get lane).map reg.get := by
  rw [unselectedOf, taggedLanes_eq_map, List.filter_map, List.map_map]
  rfl

/-! ### Writing lists -/

/-- A slot that a list is not written to may be set before or after. -/
theorem writeList_setIfInBounds_comm (mem : Array α) {pos slot : Nat} (x : α) (xs : List α)
    (h : slot < pos ∨ pos + xs.length ≤ slot) :
    writeList (mem.setIfInBounds slot x) pos xs = (writeList mem pos xs).setIfInBounds slot x := by
  apply Array.ext_getElem?
  intro i
  rw [getElem?_writeList, Array.size_setIfInBounds, Array.getElem?_setIfInBounds,
    Array.getElem?_setIfInBounds, getElem?_writeList, size_writeList]
  by_cases hi : slot = i
  · rw [if_neg (by omega), if_pos hi, if_pos hi]
  · rw [if_neg hi, if_neg hi]

/-- Writing two lists one behind the other. -/
theorem writeSelected_append (mem : Array α) (pos : Nat) (xs ys : List (Bool × α)) :
    writeSelected mem pos (xs ++ ys) =
      writeSelected (writeSelected mem pos xs) (pos + xs.length) ys := by
  induction xs generalizing mem pos with
  | nil => rfl
  | cons lane xs ih =>
    obtain ⟨_ | _, x⟩ := lane
    · rw [List.cons_append, writeSelected, writeSelected, ih, List.length_cons, Nat.add_assoc,
        Nat.add_comm 1]
    · rw [List.cons_append, writeSelected, writeSelected, ih, List.length_cons, Nat.add_assoc,
        Nat.add_comm 1]

theorem writeSelected_all (mem : Array α) (pos : Nat) (xs : List α) :
    writeSelected mem pos (xs.map fun x => (true, x)) = writeList mem pos xs := by
  induction xs generalizing mem pos with
  | nil => rfl
  | cons x xs ih => rw [List.map_cons, writeSelected, ih, writeList]

theorem writeSelected_none (mem : Array α) (pos : Nat) (xs : List α) :
    writeSelected mem pos (xs.map fun x => (false, x)) = mem := by
  induction xs generalizing pos with
  | nil => rfl
  | cons x xs ih => rw [List.map_cons, writeSelected, ih]

/-! ### Scalar code -/

namespace Scalar

/-- Dealing lanes out to two cursors writes the two groups one after the other, unless a slot
belongs to both groups. -/
theorem deal_eq_writeList (mem : Array α) (left right : Nat) (lanes : List (Bool × α))
    (h : ∀ slot, left ≤ slot → slot < left + (unselectedOf lanes).length → right ≤ slot →
      ¬ slot < right + (selectedOf lanes).length) :
    deal mem left right lanes =
      writeList (writeList mem left (unselectedOf lanes)) right (selectedOf lanes) := by
  induction lanes generalizing mem left right with
  | nil => rfl
  | cons lane lanes ih =>
    obtain ⟨_ | _, x⟩ := lane
    · rw [unselectedOf_cons_false, selectedOf_cons_false, List.length_cons] at h
      rw [deal, ih _ _ _ fun slot hge hlt hright => h slot (by omega) (by omega) hright,
        unselectedOf_cons_false, selectedOf_cons_false, writeList]
    · -- this selected lane is written before the unselected ones that follow it
      rw [unselectedOf_cons_true, selectedOf_cons_true, List.length_cons] at h
      have hslot := h right
      rw [deal, ih _ _ _ fun slot hge hlt hright => by have := h slot; omega,
        unselectedOf_cons_true, selectedOf_cons_true, writeList,
        writeList_setIfInBounds_comm _ _ _ (by omega)]

theorem count_eq_length (mask : Mask width) (reg : Register α width) :
    count mask = (selectedOf (taggedLanes mask reg)).length := by
  rw [count, selectedOf_taggedLanes, List.length_map, toList_eq_map_finRange mask, List.countP_map,
    List.countP_eq_length_filter]
  rfl

/-- The slots that the selected lanes leave free are as many as there are unselected lanes. -/
theorem sub_count_eq_length (mask : Mask width) (reg : Register α width) :
    width - count mask = (unselectedOf (taggedLanes mask reg)).length := by
  have hlength := length_unselectedOf_add (taggedLanes mask reg)
  rw [length_taggedLanes, ← count_eq_length] at hlength
  omega

/-- The two write cursors write the unselected and the selected lanes, unless they come to one
slot. -/
theorem mem_splitStore_of_not_both (mem : Array α) {left right : Nat} (mask : Mask width)
    (reg : Register α width)
    (h : ∀ slot, left ≤ slot → slot < left + (width - count mask) →
      right + (width - count mask) ≤ slot → ¬ slot < right + width) :
    (splitStore mem left right mask reg).mem =
      writeList (writeList mem left (unselectedOf (taggedLanes mask reg)))
        (right + (unselectedOf (taggedLanes mask reg)).length)
        (selectedOf (taggedLanes mask reg)) := by
  have hlength := length_unselectedOf_add (taggedLanes mask reg)
  rw [length_taggedLanes] at hlength
  rw [sub_count_eq_length mask reg] at h
  rw [splitStore, sub_count_eq_length mask reg]
  exact deal_eq_writeList mem _ _ _ fun slot hge hlt hright => by
    have := h slot
    omega

/-- The two write cursors write the unselected and the selected lanes, unless the slots of the two
registers overlap the wrong way round. -/
theorem mem_splitStore (mem : Array α) {left right : Nat} (mask : Mask width)
    (reg : Register α width) (h : left ≤ right ∨ right + width ≤ left) :
    (splitStore mem left right mask reg).mem =
      writeList (writeList mem left (unselectedOf (taggedLanes mask reg)))
        (right + (unselectedOf (taggedLanes mask reg)).length)
        (selectedOf (taggedLanes mask reg)) :=
  mem_splitStore_of_not_both mem mask reg fun slot _ _ _ => by omega

end Scalar

/-! ### Shuffles -/

namespace Shuffle

theorem testBit_ofBits (bits : List Bool) (i : Nat) :
    (ofBits bits).testBit i = bits.getD i false := by
  induction bits generalizing i with
  | nil => rw [ofBits, Nat.zero_testBit, List.getD_nil]
  | cons bit bits ih =>
    have hbit : bit.toNat < 2 := Bool.toNat_lt bit
    cases i with
    | zero =>
      rw [ofBits, Nat.testBit_zero, List.getD_cons_zero, Nat.add_mul_mod_self_left,
        Nat.mod_eq_of_lt hbit]
      cases bit <;> rfl
    | succ i =>
      rw [ofBits, Nat.testBit_add_one, Nat.add_mul_div_left _ _ (by decide),
        Nat.div_eq_of_lt hbit, Nat.zero_add, ih, List.getD_cons_succ]

/-- The bits of a mask are its lanes. -/
theorem testBit_maskBits (mask : Mask 8) (lane : Fin 8) :
    (maskBits mask).testBit lane = mask.get lane := by
  rw [maskBits, testBit_ofBits, toList_eq_map_finRange, List.getD_eq_getElem?_getD,
    List.getElem?_map, List.getElem?_eq_getElem (by simp), List.getElem_finRange]
  rfl

theorem popcount_eq_length (mask : Mask 8) (reg : Register α 8) :
    popcount (maskBits mask) = (selectedOf (taggedLanes mask reg)).length := by
  have hrange : List.range 8 = (List.finRange 8).map Fin.val := by decide
  rw [popcount, hrange, List.countP_map, List.countP_eq_length_filter, selectedOf_taggedLanes,
    List.length_map]
  exact congrArg List.length (List.filter_congr fun lane _ => testBit_maskBits mask lane)

theorem length_clearThenSet (bits : Nat) : (clearThenSet bits).length = 8 := by
  have hsplit := List.length_eq_countP_add_countP (fun lane : Fin 8 => bits.testBit lane.val)
    (l := List.finRange 8)
  simp only [Bool.not_eq_true, Bool.decide_eq_false, List.length_finRange] at hsplit
  rw [clearThenSet, List.length_append, ← List.countP_eq_length_filter,
    ← List.countP_eq_length_filter]
  omega

/-- A row of the table lists the lanes with a clear bit before those with a set bit. -/
theorem toList_compactingRow (bits : Nat) : (compactingRow bits).toList = clearThenSet bits := by
  apply List.ext_getElem
  · rw [Vector.length_toList, length_clearThenSet]
  · intro i h₁ h₂
    simp [compactingRow, h₂]

/-- Permuted by the row of its mask, a register holds its unselected lanes before its selected
ones. -/
theorem toList_permute_compactingRow (mask : Mask 8) (reg : Register α 8) :
    (permute reg (compactingRow (maskBits mask))).toList =
      unselectedOf (taggedLanes mask reg) ++ selectedOf (taggedLanes mask reg) := by
  rw [permute, Vector.toList_map, toList_compactingRow, clearThenSet, List.map_append,
    unselectedOf_taggedLanes, selectedOf_taggedLanes]
  congr 2
  · exact List.filter_congr fun lane _ => by rw [testBit_maskBits]
  · exact List.filter_congr fun lane _ => testBit_maskBits mask lane

/-- The lanes under a mask that is constant on the first `n` lanes and the opposite
on the others. -/
theorem taggedLanes_of_split {mask : Mask width} {n : Nat} {bit : Bool} (hn : n ≤ width)
    (h : ∀ lane : Fin width, mask[lane] = if lane.val < n then bit else !bit)
    (reg : Register α width) :
    taggedLanes mask reg =
      (reg.toList.take n).map (fun x => (bit, x)) ++
        (reg.toList.drop n).map fun x => (!bit, x) := by
  apply List.ext_getElem
  · simp
    omega
  · intro i h₁ h₂
    rw [length_taggedLanes] at h₁
    have hlane : mask[i] = if i < n then bit else !bit := h ⟨i, h₁⟩
    by_cases hi : i < n
    · rw [if_pos hi] at hlane
      rw [List.getElem_append_left (by simp; omega)]
      simp [taggedLanes, hlane]
    · rw [if_neg hi] at hlane
      rw [List.getElem_append_right (by simp; omega)]
      simp [taggedLanes, hlane, Nat.min_eq_left hn, Nat.add_sub_cancel' (Nat.not_lt.mp hi)]

theorem get_firstLanes (n : Nat) (lane : Fin 8) :
    (firstLanes n).get lane = decide (lane.val < min n 8) := Vector.getElem_ofFn lane.isLt

/-- A store under the mask of the first lanes writes these one behind the other. -/
theorem maskedStore_firstLanes (mem : Array α) (pos n : Nat) (reg : Register α 8) :
    maskedStore mem pos (firstLanes n) reg = writeList mem pos (reg.toList.take n) := by
  have hmask (lane : Fin 8) :
      (firstLanes n)[lane] = if lane.val < min n 8 then true else !true := by
    simp [firstLanes]
  have htake : reg.toList.take (min n 8) = reg.toList.take n := by
    rw [List.take_eq_take_iff, Vector.length_toList, Nat.min_assoc, Nat.min_self]
  rw [maskedStore, taggedLanes_of_split (Nat.min_le_right n 8) hmask, writeSelected_append,
    Bool.not_true, writeSelected_none, writeSelected_all, htake]

/-- A store under the mask that leaves out the first lanes writes the others behind a gap. -/
theorem maskedStore_complement_firstLanes (mem : Array α) (pos : Nat) {n : Nat} (hn : n ≤ 8)
    (reg : Register α 8) :
    maskedStore mem pos (complement (firstLanes n)) reg =
      writeList mem (pos + n) (reg.toList.drop n) := by
  have hmask (lane : Fin 8) :
      (complement (firstLanes n))[lane] = if lane.val < n then false else !false := by
    by_cases hlane : lane.val < n <;>
      simp [complement, firstLanes, broadcast, Nat.min_eq_left hn, hlane]
  rw [maskedStore, taggedLanes_of_split hn hmask, writeSelected_append, Bool.not_false,
    writeSelected_none, writeSelected_all, List.length_map, List.length_take,
    Vector.length_toList, Nat.min_eq_left hn]

/-- The two masked stores of a permuted register write its unselected lanes and then its selected
lanes, whether or not the slots overlap. -/
theorem mem_splitStore (mem : Array α) (left right : Nat) (mask : Mask 8) (reg : Register α 8) :
    (splitStore mem left right mask reg).mem =
      writeList (writeList mem left (unselectedOf (taggedLanes mask reg)))
        (right + (unselectedOf (taggedLanes mask reg)).length)
        (selectedOf (taggedLanes mask reg)) := by
  have hlength := length_unselectedOf_add (taggedLanes mask reg)
  rw [length_taggedLanes] at hlength
  have hfront : 8 - popcount (maskBits mask) = (unselectedOf (taggedLanes mask reg)).length := by
    rw [popcount_eq_length mask reg]
    omega
  -- the permuted register holds one group behind the other, and each store selects one of them
  simp only [splitStore, hfront]
  rw [maskedStore_firstLanes, maskedStore_complement_firstLanes _ _ (by omega),
    toList_permute_compactingRow, List.take_left, List.drop_left]

end Shuffle

/-! ### Every lane set -/

namespace Lanes

/-- The splitting store writes the unselected lanes to the left slots and the selected ones to the
right slots, each group in lane order, unless the slots of the two registers overlap the wrong way
round. -/
theorem mem_splitStore (lanes : Lanes) (mem : Array α) {left right : Nat} (mask : Mask lanes.width)
    (reg : Register α lanes.width) (h : left ≤ right ∨ right + lanes.width ≤ left) :
    (lanes.splitStore mem left right mask reg).mem =
      writeList (writeList mem left (unselectedOf (taggedLanes mask reg)))
        (right + (unselectedOf (taggedLanes mask reg)).length)
        (selectedOf (taggedLanes mask reg)) := by
  cases lanes with
  | portable width width_pos => exact Scalar.mem_splitStore mem mask reg h
  | avx2 => exact Shuffle.mem_splitStore mem left right mask reg

/-- The splitting store counts the selected lanes. -/
theorem selected_splitStore (lanes : Lanes) (mem : Array α) (left right : Nat)
    (mask : Mask lanes.width) (reg : Register α lanes.width) :
    (lanes.splitStore mem left right mask reg).selected =
      (selectedOf (taggedLanes mask reg)).length := by
  cases lanes with
  | portable width width_pos => exact Scalar.count_eq_length mask reg
  | avx2 => exact Shuffle.popcount_eq_length mask reg

end Lanes

end VectorizedSort
