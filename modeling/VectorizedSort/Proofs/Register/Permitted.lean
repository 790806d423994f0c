import Mathlib.Data.Finset.Image
import Mathlib.Order.Interval.Finset.Nat
import VectorizedSort.Proofs.Register.Exchange

/-! # Register operations on permitted slots

A slot that is read and ignored, or overwritten with what it holds, leaves no trace in the answer of
an operation. Here the operations are carried out once more on a memory of which only some slots may
be touched, and they give up at the first access to any other slot. Scalar code asks for one slot
after another. A masked move of a whole register asks for the slots of its selected lanes. On every
lane set, an operation goes through if it may touch the slots that its mask or its count stands
for, and then it does what it does elsewhere. -/

namespace VectorizedSort

variable {α : Type} {width : Nat}

/-! ### Addressed slots -/

/-- The slots of the selected lanes of a register at the given position. -/
def maskedSlots (pos : Nat) (mask : Mask width) : Finset Nat :=
  (Finset.univ.filter fun lane => mask.get lane).image fun lane => pos + lane.val

/-- The slots that the selected lanes take up next to each other. -/
def packedSlots (pos : Nat) (mask : Mask width) : Finset Nat :=
  Finset.Ico pos (pos + Scalar.count mask)

/-- The slots that a splitting store fills with unselected lanes. -/
def leftSlots (left : Nat) (mask : Mask width) : Finset Nat :=
  Finset.Ico left (left + (width - Scalar.count mask))

/-- The slots that a splitting store fills with selected lanes. -/
def rightSlots (right : Nat) (mask : Mask width) : Finset Nat :=
  Finset.Ico (right + (width - Scalar.count mask)) (right + width)

/-- The slots of neighbouring pairs. -/
def pairSlots (pos count : Nat) : Finset Nat := Finset.Ico pos (pos + 2 * count)

theorem mem_maskedSlots {pos slot : Nat} {mask : Mask width} :
    slot ∈ maskedSlots pos mask ↔ ∃ lane, mask.get lane = true ∧ pos + lane.val = slot := by
  simp [maskedSlots]

/-- The first one of several consecutive slots. -/
theorem mem_of_Ico_subset {pos n : Nat} {slots : Finset Nat}
    (h : Finset.Ico pos (pos + (n + 1)) ⊆ slots) : pos ∈ slots :=
  h (Finset.mem_Ico.mpr (by omega))

/-- The slots behind the first one. -/
theorem Ico_subset_of_succ {pos n : Nat} {slots : Finset Nat}
    (h : Finset.Ico pos (pos + (n + 1)) ⊆ slots) : Finset.Ico (pos + 1) (pos + 1 + n) ⊆ slots :=
  (Finset.Ico_subset_Ico (Nat.le_succ pos) (by omega)).trans h

/-! ### Single accesses -/

section Access

variable (slots : Finset Nat) (mem : Array α) (pos : Nat)

/-- Read a slot, if it may be touched. -/
def readIn [Element α] : Option α := if pos ∈ slots then some (peek mem pos) else none

/-- Write to a slot, if it may be touched. -/
def writeIn (x : α) : Option (Array α) :=
  if pos ∈ slots then some (mem.setIfInBounds pos x) else none

variable {slots} {pos} (h : pos ∈ slots)

include h

theorem readIn_of_mem [Element α] : readIn slots mem pos = some (peek mem pos) := if_pos h

theorem writeIn_of_mem (x : α) : writeIn slots mem pos x = some (mem.setIfInBounds pos x) :=
  if_pos h

end Access

/-! ### By scalar code -/

namespace Scalar

section Definitions

variable (slots : Finset Nat)

/-- Write the selected elements of a list to their own slots. -/
def writeSelectedIn (mem : Array α) (pos : Nat) : List (Bool × α) → Option (Array α)
  | [] => some mem
  | (true, x) :: rest => do
    let mem ← writeIn slots mem pos x
    writeSelectedIn mem (pos + 1) rest
  | (false, _) :: rest => writeSelectedIn mem (pos + 1) rest

/-- Write the selected elements of a list next to each other, `written` of them being there. -/
def packIn (mem : Array α) (pos written : Nat) : List (Bool × α) → Option (Compacted α)
  | [] => some ⟨mem, written⟩
  | (true, x) :: rest => do
    let mem ← writeIn slots mem (pos + written) x
    packIn mem pos (written + 1) rest
  | (false, _) :: rest => packIn mem pos written rest

/-- Write the unselected elements of a list from `left` on and the selected ones from `right` on. -/
def dealIn (mem : Array α) (left right : Nat) : List (Bool × α) → Option (Array α)
  | [] => some mem
  | (true, x) :: rest => do
    let mem ← writeIn slots mem right x
    dealIn mem left (right + 1) rest
  | (false, x) :: rest => do
    let mem ← writeIn slots mem left x
    dealIn mem (left + 1) right rest

/-- Store the selected lanes to their own slots. -/
def maskedStoreIn (mem : Array α) (pos : Nat) (mask : Mask width) (reg : Register α width) :
    Option (Array α) :=
  writeSelectedIn slots mem pos (taggedLanes mask reg)

/-- Store the selected lanes next to each other. -/
def compressStoreIn (mem : Array α) (pos : Nat) (mask : Mask width) (reg : Register α width) :
    Option (Compacted α) :=
  packIn slots mem pos 0 (taggedLanes mask reg)

/-- Store the unselected lanes to the left and the selected ones to the right. -/
def splitStoreIn (mem : Array α) (left right : Nat) (mask : Mask width) (reg : Register α width) :
    Option (Compacted α) := do
  let mem ← dealIn slots mem left (right + (width - count mask)) (taggedLanes mask reg)
  return ⟨mem, count mask⟩

variable [Element α]

/-- Load the selected lanes from their own slots and keep the others. -/
def maskedLoadIn (existing : Register α width) (mask : Mask width) (mem : Array α) (pos : Nat) :
    Option (Register α width) :=
  Vector.ofFnM fun lane =>
    if mask.get lane then readIn slots mem (pos + lane) else some (existing.get lane)

/-- Put two neighbouring elements in order. -/
def exchangePairIn (mem : Array α) (pos : Nat) : Option (Array α) := do
  let a ← readIn slots mem pos
  let b ← readIn slots mem (pos + 1)
  let inOrder := Element.lt a b
  let mem ← writeIn slots mem pos (if inOrder then a else b)
  writeIn slots mem (pos + 1) (if inOrder then b else a)

/-- Put `count` neighbouring pairs in order, from `pos` on. -/
def exchangePairsIn (mem : Array α) (pos : Nat) : (count : Nat) → Option (Array α)
  | 0 => some mem
  | count + 1 => do
    let mem ← exchangePairIn slots mem pos
    exchangePairsIn mem (pos + 2) count

end Definitions

variable {slots : Finset Nat}

theorem writeSelectedIn_eq_some (mem : Array α) {pos : Nat} {lanes : List (Bool × α)}
    (h : ∀ (i : Nat) (_ : i < lanes.length), lanes[i].1 = true → pos + i ∈ slots) :
    writeSelectedIn slots mem pos lanes = some (writeSelected mem pos lanes) := by
  induction lanes generalizing mem pos with
  | nil => rfl
  | cons lane lanes ih =>
    have hrest (i : Nat) (hi : i < lanes.length) (hlane : lanes[i].1 = true) :
        pos + 1 + i ∈ slots := by
      have hmem := h (i + 1) (Nat.succ_lt_succ hi) hlane
      rwa [Nat.add_assoc, Nat.add_comm 1]
    obtain ⟨_ | _, x⟩ := lane
    · rw [writeSelectedIn, ih mem hrest, writeSelected]
    · have hfirst : pos ∈ slots := h 0 (Nat.succ_pos _) rfl
      rw [writeSelectedIn, writeIn_of_mem mem hfirst, Option.bind_eq_bind, Option.bind_some,
        ih _ hrest, writeSelected]

/-- The write cursor comes to one slot for each selected element. -/
theorem packIn_eq_some (mem : Array α) {pos written : Nat} {lanes : List (Bool × α)}
    (h : Finset.Ico (pos + written) (pos + written + (selectedOf lanes).length) ⊆ slots) :
    packIn slots mem pos written lanes = some (pack mem pos written lanes) := by
  induction lanes generalizing mem written with
  | nil => rfl
  | cons lane lanes ih =>
    obtain ⟨_ | _, x⟩ := lane
    · rw [packIn, ih mem h, pack]
    · have hrest : Finset.Ico (pos + (written + 1))
          (pos + (written + 1) + (selectedOf lanes).length) ⊆ slots := Ico_subset_of_succ h
      rw [packIn, writeIn_of_mem mem (mem_of_Ico_subset h), Option.bind_eq_bind,
        Option.bind_some, ih _ hrest, pack]

/-- The two write cursors come to one slot for each element of their group. -/
theorem dealIn_eq_some (mem : Array α) {left right : Nat} {lanes : List (Bool × α)}
    (hleft : Finset.Ico left (left + (unselectedOf lanes).length) ⊆ slots)
    (hright : Finset.Ico right (right + (selectedOf lanes).length) ⊆ slots) :
    dealIn slots mem left right lanes = some (deal mem left right lanes) := by
  induction lanes generalizing mem left right with
  | nil => rfl
  | cons lane lanes ih =>
    obtain ⟨_ | _, x⟩ := lane
    · rw [dealIn, writeIn_of_mem mem (mem_of_Ico_subset hleft), Option.bind_eq_bind,
        Option.bind_some, ih _ (Ico_subset_of_succ hleft) hright, deal]
    · rw [dealIn, writeIn_of_mem mem (mem_of_Ico_subset hright), Option.bind_eq_bind,
        Option.bind_some, ih _ hleft (Ico_subset_of_succ hright), deal]

theorem maskedStoreIn_eq_some (mem : Array α) (pos : Nat) (mask : Mask width)
    (reg : Register α width) :
    maskedStoreIn (maskedSlots pos mask) mem pos mask reg = some (maskedStore mem pos mask reg) := by
  refine writeSelectedIn_eq_some mem fun i hi hlane => mem_maskedSlots.mpr ?_
  rw [length_taggedLanes] at hi
  refine ⟨⟨i, hi⟩, ?_, rfl⟩
  simp only [taggedLanes_eq_map, List.getElem_map, List.getElem_finRange] at hlane
  exact hlane

theorem compressStoreIn_eq_some (mem : Array α) (pos : Nat) (mask : Mask width)
    (reg : Register α width) :
    compressStoreIn (packedSlots pos mask) mem pos mask reg =
      some (compressStore mem pos mask reg) := by
  refine packIn_eq_some mem ?_
  rw [← count_eq_length mask reg]
  exact Finset.Subset.refl _

theorem splitStoreIn_eq_some (mem : Array α) (left right : Nat) (mask : Mask width)
    (reg : Register α width) :
    splitStoreIn (leftSlots left mask ∪ rightSlots right mask) mem left right mask reg =
      some (splitStore mem left right mask reg) := by
  have hlength := length_unselectedOf_add (taggedLanes mask reg)
  rw [length_taggedLanes, ← sub_count_eq_length mask reg] at hlength
  -- each cursor stays inside the slots of its group
  rw [splitStoreIn, dealIn_eq_some mem]
  · rfl
  · rw [← sub_count_eq_length mask reg]
    exact Finset.subset_union_left
  · refine Finset.Subset.trans ?_ Finset.subset_union_right
    exact Finset.Ico_subset_Ico_right (by omega)

variable [Element α]

theorem maskedLoadIn_eq_some (existing : Register α width) (mask : Mask width) (mem : Array α)
    (pos : Nat) :
    maskedLoadIn (maskedSlots pos mask) existing mask mem pos =
      some (maskedLoad existing mask mem pos) := by
  have hlane (lane : Fin width) :
      (if mask.get lane then readIn (maskedSlots pos mask) mem (pos + lane)
        else some (existing.get lane)) =
        pure (if mask.get lane then peek mem (pos + lane) else existing.get lane) := by
    split
    · exact readIn_of_mem mem (mem_maskedSlots.mpr ⟨lane, ‹_›, rfl⟩)
    · rfl
  rw [maskedLoadIn, funext hlane, Vector.ofFnM_pure]
  rfl

theorem exchangePairsIn_eq_some (mem : Array α) {pos count : Nat}
    (h : pairSlots pos count ⊆ slots) :
    exchangePairsIn slots mem pos count = some (exchangePairs mem pos count) := by
  induction count generalizing mem pos with
  | zero => rfl
  | succ count ih =>
    have hfirst : pos ∈ slots := mem_of_Ico_subset h
    have hsecond : pos + 1 ∈ slots := mem_of_Ico_subset (Ico_subset_of_succ h)
    have hpair : exchangePairIn slots mem pos = some (exchangePair mem pos) := by
      rw [exchangePairIn, readIn_of_mem mem hfirst, readIn_of_mem mem hsecond]
      simp only [Option.bind_eq_bind, Option.bind_some]
      rw [writeIn_of_mem mem hfirst, Option.bind_some, writeIn_of_mem _ hsecond]
      rfl
    rw [exchangePairsIn, hpair, Option.bind_eq_bind, Option.bind_some,
      ih _ (Ico_subset_of_succ (Ico_subset_of_succ h)), exchangePairs]

end Scalar

/-! ### By shuffles -/

namespace Shuffle

section Definitions

variable (slots : Finset Nat)

/-- Store the selected lanes to their own slots. -/
def maskedStoreIn (mem : Array α) (pos : Nat) (mask : Mask 8) (reg : Register α 8) :
    Option (Array α) :=
  if maskedSlots pos mask ⊆ slots then some (maskedStore mem pos mask reg) else none

/-- Store the selected lanes next to each other. -/
def compressStoreIn (mem : Array α) (pos : Nat) (mask : Mask 8) (reg : Register α 8) :
    Option (Compacted α) := do
  let bits := maskBits mask
  let selectedFirst := permute reg (compactingRow (bits ^^^ 0xff))
  let mem ← maskedStoreIn slots mem pos (firstLanes (popcount bits)) selectedFirst
  return ⟨mem, popcount bits⟩

/-- Store the unselected lanes to the left and the selected ones to the right. -/
def splitStoreIn (mem : Array α) (left right : Nat) (mask : Mask 8) (reg : Register α 8) :
    Option (Compacted α) := do
  let bits := maskBits mask
  let compacted := permute reg (compactingRow bits)
  let front := firstLanes (8 - popcount bits)
  -- the two masks share no lane, so every lane asks for one slot
  let mem ← maskedStoreIn slots mem left front compacted
  let mem ← maskedStoreIn slots mem right (complement front) compacted
  return ⟨mem, popcount bits⟩

variable [Element α]

/-- Load the selected lanes from their own slots and fill the others with zeros. -/
def loadOrZeroIn (mem : Array α) (pos : Nat) (mask : Mask 8) : Option (Register α 8) :=
  if maskedSlots pos mask ⊆ slots then some (loadOrZero mem pos mask) else none

/-- Load the selected lanes from their own slots and keep the others. -/
def maskedLoadIn (existing : Register α 8) (mask : Mask 8) (mem : Array α) (pos : Nat) :
    Option (Register α 8) := do
  let loaded ← loadOrZeroIn slots mem pos mask
  return blend existing loaded mask

/-- Put `count` neighbouring pairs in order, at most one pair per lane. -/
def exchangePairsIn (mem : Array α) (pos count : Nat) : Option (Array α) := do
  let loMask := firstLanes (2 * count)
  let hiMask := firstLanes (2 * count - 8)
  let lo ← loadOrZeroIn slots mem pos loMask
  let hi ← loadOrZeroIn slots mem (pos + 8) hiMask
  let pairs := orderedPairs lo hi
  -- a register that holds no pair asks for no slot
  let mem ← maskedStoreIn slots mem pos loMask pairs.1
  maskedStoreIn slots mem (pos + 8) hiMask pairs.2

end Definitions

variable {slots : Finset Nat}

/-- The mask of the first lanes selects the first slots. -/
theorem maskedSlots_firstLanes (pos n : Nat) :
    maskedSlots pos (firstLanes n) = Finset.Ico pos (pos + min n 8) := by
  ext slot
  rw [mem_maskedSlots, Finset.mem_Ico]
  constructor
  · rintro ⟨lane, hlane, rfl⟩
    rw [get_firstLanes, decide_eq_true_eq] at hlane
    omega
  · rintro ⟨hge, hlt⟩
    refine ⟨⟨slot - pos, by omega⟩, ?_, Nat.add_sub_cancel' hge⟩
    rw [get_firstLanes, decide_eq_true_eq, Nat.sub_lt_iff_lt_add hge]
    omega

/-- Its complement selects the slots behind these. -/
theorem maskedSlots_complement_firstLanes (pos n : Nat) :
    maskedSlots pos (complement (firstLanes n)) = Finset.Ico (pos + min n 8) (pos + 8) := by
  ext slot
  rw [mem_maskedSlots, Finset.mem_Ico]
  have hget (lane : Fin 8) :
      (complement (firstLanes n)).get lane = !decide (lane.val < min n 8) := by
    show (complement (firstLanes n))[lane.val] = _
    simp [complement, firstLanes, broadcast]
  constructor
  · rintro ⟨lane, hlane, rfl⟩
    rw [hget, Bool.not_eq_true', decide_eq_false_iff_not] at hlane
    omega
  · rintro ⟨hge, hlt⟩
    have hpos : pos ≤ slot := (Nat.le_add_right pos _).trans hge
    have hlane : ¬ slot - pos < min n 8 := by omega
    refine ⟨⟨slot - pos, by omega⟩, ?_, Nat.add_sub_cancel' hpos⟩
    rw [hget, decide_eq_false hlane, Bool.not_false]

theorem maskedStoreIn_of_subset (mem : Array α) {pos : Nat} {mask : Mask 8}
    (h : maskedSlots pos mask ⊆ slots) (reg : Register α 8) :
    maskedStoreIn slots mem pos mask reg = some (maskedStore mem pos mask reg) := if_pos h

theorem popcount_eq_count (mask : Mask 8) : popcount (maskBits mask) = Scalar.count mask := by
  have hlength := popcount_eq_length mask mask
  rwa [← Scalar.count_eq_length] at hlength

theorem compressStoreIn_eq_some (mem : Array α) (pos : Nat) (mask : Mask 8)
    (reg : Register α 8) :
    compressStoreIn (packedSlots pos mask) mem pos mask reg =
      some (compressStore mem pos mask reg) := by
  have hslots : maskedSlots pos (firstLanes (popcount (maskBits mask))) ⊆ packedSlots pos mask := by
    rw [maskedSlots_firstLanes, popcount_eq_count]
    exact Finset.Ico_subset_Ico_right (by omega)
  rw [compressStoreIn, maskedStoreIn_of_subset mem hslots]
  rfl

theorem splitStoreIn_eq_some (mem : Array α) (left right : Nat) (mask : Mask 8)
    (reg : Register α 8) :
    splitStoreIn (leftSlots left mask ∪ rightSlots right mask) mem left right mask reg =
      some (splitStore mem left right mask reg) := by
  have hleft : maskedSlots left (firstLanes (8 - popcount (maskBits mask))) ⊆
      leftSlots left mask ∪ rightSlots right mask := by
    rw [maskedSlots_firstLanes, popcount_eq_count]
    exact (Finset.Ico_subset_Ico_right (by omega)).trans Finset.subset_union_left
  have hright : maskedSlots right (complement (firstLanes (8 - popcount (maskBits mask)))) ⊆
      leftSlots left mask ∪ rightSlots right mask := by
    rw [maskedSlots_complement_firstLanes, popcount_eq_count]
    exact (Finset.Ico_subset_Ico_left (by omega)).trans Finset.subset_union_right
  rw [splitStoreIn, maskedStoreIn_of_subset mem hleft, Option.bind_eq_bind, Option.bind_some,
    maskedStoreIn_of_subset _ hright]
  rfl

variable [Element α]

theorem loadOrZeroIn_of_subset (mem : Array α) {pos : Nat} {mask : Mask 8}
    (h : maskedSlots pos mask ⊆ slots) :
    loadOrZeroIn slots mem pos mask = some (loadOrZero mem pos mask) := if_pos h

theorem maskedLoadIn_eq_some (existing : Register α 8) (mask : Mask 8) (mem : Array α)
    (pos : Nat) :
    maskedLoadIn (maskedSlots pos mask) existing mask mem pos =
      some (maskedLoad existing mask mem pos) := by
  rw [maskedLoadIn, loadOrZeroIn_of_subset mem (Finset.Subset.refl _)]
  rfl

/-- The lanes that hold no pair are not touched. -/
theorem exchangePairsIn_eq_some (mem : Array α) (pos count : Nat) :
    exchangePairsIn (pairSlots pos count) mem pos count = some (exchangePairs mem pos count) := by
  have hlo : maskedSlots pos (firstLanes (2 * count)) ⊆ pairSlots pos count := by
    rw [maskedSlots_firstLanes]
    exact Finset.Ico_subset_Ico_right (by omega)
  have hhi : maskedSlots (pos + 8) (firstLanes (2 * count - 8)) ⊆ pairSlots pos count := by
    rw [maskedSlots_firstLanes]
    intro slot hslot
    rw [Finset.mem_Ico] at hslot
    exact Finset.mem_Ico.mpr (by omega)
  rw [exchangePairsIn, loadOrZeroIn_of_subset mem hlo, loadOrZeroIn_of_subset mem hhi]
  simp only [Option.bind_eq_bind, Option.bind_some]
  rw [maskedStoreIn_of_subset mem hlo, Option.bind_some, maskedStoreIn_of_subset _ hhi,
    exchangePairs_eq_maskedStore]

end Shuffle

/-! ### Every lane set -/

namespace Lanes

section Definitions

variable (slots : Finset Nat)

/-- Store the selected lanes to their own slots. -/
def maskedStoreIn : (lanes : Lanes) → Array α → Nat → Mask lanes.width → Register α lanes.width →
    Option (Array α)
  | portable _ _, mem, pos, mask, reg => Scalar.maskedStoreIn slots mem pos mask reg
  | avx2, mem, pos, mask, reg => Shuffle.maskedStoreIn slots mem pos mask reg

/-- Store the selected lanes next to each other. -/
def compressStoreIn : (lanes : Lanes) → Array α → Nat → Mask lanes.width → Register α lanes.width →
    Option (Compacted α)
  | portable _ _, mem, pos, mask, reg => Scalar.compressStoreIn slots mem pos mask reg
  | avx2, mem, pos, mask, reg => Shuffle.compressStoreIn slots mem pos mask reg

/-- Store the unselected lanes to the left and the selected ones to the right. -/
def splitStoreIn : (lanes : Lanes) → Array α → Nat → Nat → Mask lanes.width →
    Register α lanes.width → Option (Compacted α)
  | portable _ _, mem, left, right, mask, reg => Scalar.splitStoreIn slots mem left right mask reg
  | avx2, mem, left, right, mask, reg => Shuffle.splitStoreIn slots mem left right mask reg

variable [Element α]

/-- Load the selected lanes from their own slots and keep the others. -/
def maskedLoadIn : (lanes : Lanes) → Register α lanes.width → Mask lanes.width → Array α → Nat →
    Option (Register α lanes.width)
  | portable _ _, existing, mask, mem, pos => Scalar.maskedLoadIn slots existing mask mem pos
  | avx2, existing, mask, mem, pos => Shuffle.maskedLoadIn slots existing mask mem pos

/-- Put neighbouring pairs in order, for a number of pairs that is at most that of the lanes. -/
def exchangePairsIn : (lanes : Lanes) → Array α → (pos count : Nat) → Option (Array α)
  | portable _ _, mem, pos, count => Scalar.exchangePairsIn slots mem pos count
  | avx2, mem, pos, count => Shuffle.exchangePairsIn slots mem pos count

end Definitions

/-- Every operation that accesses the memory goes through if it may touch the slots it addresses,
and then it does what it does where every slot may be touched. -/
structure TouchesAddressed (α : Type) [Element α] (lanes : Lanes) : Prop where
  maskedLoad : ∀ (existing : Register α lanes.width) mask mem pos,
    lanes.maskedLoadIn (maskedSlots pos mask) existing mask mem pos =
      some (lanes.maskedLoad existing mask mem pos)
  maskedStore : ∀ (mem : Array α) pos mask reg,
    lanes.maskedStoreIn (maskedSlots pos mask) mem pos mask reg =
      some (lanes.maskedStore mem pos mask reg)
  compressStore : ∀ (mem : Array α) pos mask reg,
    lanes.compressStoreIn (packedSlots pos mask) mem pos mask reg =
      some (lanes.compressStore mem pos mask reg)
  splitStore : ∀ (mem : Array α) left right mask reg,
    lanes.splitStoreIn (leftSlots left mask ∪ rightSlots right mask) mem left right mask reg =
      some (lanes.splitStore mem left right mask reg)
  exchangePairs : ∀ (mem : Array α) pos count,
    lanes.exchangePairsIn (pairSlots pos count) mem pos count =
      some (lanes.exchangePairs mem pos count)

theorem touchesAddressed (α : Type) [Element α] (lanes : Lanes) :
    lanes.TouchesAddressed α := by
  cases lanes with
  | portable width width_pos =>
    exact
      { maskedLoad := Scalar.maskedLoadIn_eq_some
        maskedStore := Scalar.maskedStoreIn_eq_some
        compressStore := Scalar.compressStoreIn_eq_some
        splitStore := Scalar.splitStoreIn_eq_some
        exchangePairs := fun mem _ _ =>
          Scalar.exchangePairsIn_eq_some mem (Finset.Subset.refl _) }
  | avx2 =>
    exact
      { maskedLoad := Shuffle.maskedLoadIn_eq_some
        maskedStore := fun mem pos mask reg =>
          Shuffle.maskedStoreIn_of_subset mem (Finset.Subset.refl _) reg
        compressStore := Shuffle.compressStoreIn_eq_some
        splitStore := Shuffle.splitStoreIn_eq_some
        exchangePairs := Shuffle.exchangePairsIn_eq_some }

end Lanes

end VectorizedSort
