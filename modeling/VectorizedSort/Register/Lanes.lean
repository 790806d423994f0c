import VectorizedSort.Backend.Basic
import VectorizedSort.Fault
import VectorizedSort.Register.Scalar
import VectorizedSort.Register.Shuffle

/-! # Lane sets

A lane set fixes the width of the registers and how their operations are carried out: by scalar
code at any positive width, or by shuffles at width eight. The algorithms above are written once
over a lane set. -/

namespace VectorizedSort

/-- The available sets of register operations. -/
inductive Lanes where
  /-- Scalar code on registers of the given width. -/
  | portable (width : Nat) (width_pos : 0 < width)
  /-- Shuffles on registers of eight lanes. -/
  | avx2

namespace Lanes

/-- The number of elements in a register. -/
def width : Lanes → Nat
  | portable width _ => width
  | avx2 => 8

/-- The backend that a lane set belongs to. -/
def backend : Lanes → Backend
  | portable _ _ => .portable
  | avx2 => .avx2

/-- A register has at least one lane. -/
theorem width_pos (lanes : Lanes) : 0 < lanes.width := by
  cases lanes with
  | portable width width_pos => exact width_pos
  | avx2 => decide

variable {α : Type}

/-! ### Masks -/

/-- The lanes that a mask leaves out. -/
def complement : (lanes : Lanes) → Mask lanes.width → Mask lanes.width
  | portable _ _, mask => Scalar.complement mask
  | avx2, mask => Shuffle.complement mask

/-- The mask of the first `n` lanes, of all lanes if there are fewer. -/
def firstLanes : (lanes : Lanes) → Nat → Mask lanes.width
  | portable width _, n => Scalar.firstLanes width n
  | avx2, n => Shuffle.firstLanes n

/-- The number of selected lanes. -/
def count : (lanes : Lanes) → Mask lanes.width → Nat
  | portable _ _, mask => Scalar.count mask
  | avx2, mask => Shuffle.count mask

/-! ### Stores of selected lanes -/

/-- Store the selected lanes to their own slots. -/
def maskedStore : (lanes : Lanes) → Array α → Nat → Mask lanes.width → Register α lanes.width →
    Array α
  | portable _ _, mem, pos, mask, reg => Scalar.maskedStore mem pos mask reg
  | avx2, mem, pos, mask, reg => Shuffle.maskedStore mem pos mask reg

/-- Store the selected lanes next to each other. -/
def compressStore : (lanes : Lanes) → Array α → Nat → Mask lanes.width → Register α lanes.width →
    Compacted α
  | portable _ _, mem, pos, mask, reg => Scalar.compressStore mem pos mask reg
  | avx2, mem, pos, mask, reg => Shuffle.compressStore mem pos mask reg

/-- Store the unselected lanes to the front of one register's worth of slots and the selected ones
to the back of another. -/
def splitStore : (lanes : Lanes) → Array α → Nat → Nat → Mask lanes.width →
    Register α lanes.width → Compacted α
  | portable _ _, mem, left, right, mask, reg => Scalar.splitStore mem left right mask reg
  | avx2, mem, left, right, mask, reg => Shuffle.splitStore mem left right mask reg

@[simp] theorem size_splitStore (lanes : Lanes) (mem : Array α) (left right : Nat)
    (mask : Mask lanes.width) (reg : Register α lanes.width) :
    (lanes.splitStore mem left right mask reg).mem.size = mem.size := by
  cases lanes with
  | portable width width_pos => exact Scalar.size_deal ..
  | avx2 => exact Shuffle.size_splitStore ..

variable [Element α]

/-! ### Comparisons and extremes -/

/-- The lanes in which `a ≥ b`. -/
def atLeast : (lanes : Lanes) → Register α lanes.width → Register α lanes.width → Mask lanes.width
  | portable _ _, a, b => Scalar.atLeast a b
  | avx2, a, b => Shuffle.atLeast a b

/-- The lanes in which `a > b`. -/
def above : (lanes : Lanes) → Register α lanes.width → Register α lanes.width → Mask lanes.width
  | portable _ _, a, b => Scalar.above a b
  | avx2, a, b => Shuffle.above a b

/-- The smaller element of each lane. -/
def lanewiseMin : (lanes : Lanes) → Register α lanes.width → Register α lanes.width →
    Register α lanes.width
  | portable _ _, a, b => Scalar.lanewiseMin a b
  | avx2, a, b => Shuffle.lanewiseMin a b

/-- The larger element of each lane. -/
def lanewiseMax : (lanes : Lanes) → Register α lanes.width → Register α lanes.width →
    Register α lanes.width
  | portable _ _, a, b => Scalar.lanewiseMax a b
  | avx2, a, b => Shuffle.lanewiseMax a b

/-- The smallest element of a register. -/
def reduceMin : (lanes : Lanes) → Register α lanes.width → α
  | portable _ width_pos, reg => Scalar.reduce Element.laneMin reg width_pos
  | avx2, reg => Shuffle.reduce Element.laneMin reg

/-- The largest element of a register. -/
def reduceMax : (lanes : Lanes) → Register α lanes.width → α
  | portable _ width_pos, reg => Scalar.reduce Element.laneMax reg width_pos
  | avx2, reg => Shuffle.reduce Element.laneMax reg

/-! ### Loads and exchanges -/

/-- Load the selected lanes from their own slots and keep the others. -/
def maskedLoad : (lanes : Lanes) → Register α lanes.width → Mask lanes.width → Array α → Nat →
    Register α lanes.width
  | portable _ _, existing, mask, mem, pos => Scalar.maskedLoad existing mask mem pos
  | avx2, existing, mask, mem, pos => Shuffle.maskedLoad existing mask mem pos

/-- Put neighbouring pairs in order, for a number of pairs that is at most that of the lanes. -/
def exchangePairs : (lanes : Lanes) → Array α → (pos count : Nat) → Array α
  | portable _ _, mem, pos, count => Scalar.exchangePairs mem pos count
  | avx2, mem, pos, count => Shuffle.exchangePairs mem pos count

@[simp] theorem size_exchangePairs (lanes : Lanes) (mem : Array α) (pos count : Nat) :
    (lanes.exchangePairs mem pos count).size = mem.size := by
  cases lanes with
  | portable width width_pos => exact Scalar.size_exchangePairs mem pos count
  | avx2 => exact Shuffle.size_exchangePairs mem pos count

/-- Put neighbouring pairs in order, unless there are more pairs than lanes. -/
def exchangeWithin (lanes : Lanes) (mem : Array α) (pos count : Nat) : Except Fault (Array α) :=
  if count ≤ lanes.width then .ok (lanes.exchangePairs mem pos count)
  else .error (.tooManyPairs lanes.backend)

end Lanes

end VectorizedSort
