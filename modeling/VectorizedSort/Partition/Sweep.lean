import VectorizedSort.Partition.Basic

/-! # The register sweep

Partitioning whole registers in place. The registers at both ends of the range are loaded and held
back, which leaves one register's worth of free slots at either end. Each step loads one more
register from the end that has fewer free slots and then stores its failing lanes to the free slots
on the left and its passing lanes to those on the right. The held-back registers fill the last free
slots. -/

namespace VectorizedSort

/-- The state of a sweep. The slots in `[left, right)` have not been read yet. The next failing lane
goes to slot `store`, and passing lanes fill the slots below `store + unplaced` plus one register
from the back. -/
structure Sweep (α : Type) (width : Nat) where
  /-- The memory that is partitioned. -/
  mem : Array α
  /-- The first slot that has not been read. -/
  left : Nat
  /-- The slot after the last one that has not been read. -/
  right : Nat
  /-- The slot that the next failing lane goes to. -/
  store : Nat
  /-- The number of elements whose place is still open, less one register. -/
  unplaced : Nat
  /-- The extremes of the registers placed so far. -/
  seen : Extremes (Register α width)

namespace Sweep

variable {α : Type}

/-- The free slots on the left: read, but not written since. -/
def freeLeft {width : Nat} (s : Sweep α width) : Nat := s.left - s.store

/-- The free slots on the right: read, but not written since. -/
def freeRight {width : Nat} (s : Sweep α width) : Nat := s.store + s.unplaced + width - s.right

variable [Element α]

/-- Load the next register, from the side with fewer free slots, or from the left if there are as
many on both sides. -/
def take {width : Nat} (s : Sweep α width) : Register α width × Sweep α width :=
  if s.freeRight < s.freeLeft then
    (load width s.mem (s.right - width), { s with right := s.right - width })
  else
    (load width s.mem s.left, { s with left := s.left + width })

/-- Store the lanes of a register: those that fail the test to the left, those that pass to the
right. -/
def place (lanes : Lanes) (test : Test) (pivots reg : Register α lanes.width)
    (s : Sweep α lanes.width) : Sweep α lanes.width :=
  let mask := test.mask lanes reg pivots
  let stored := lanes.splitStore s.mem s.store (s.store + s.unplaced) mask reg
  { s with
    mem := stored.mem
    store := s.store + (lanes.width - stored.selected)
    unplaced := s.unplaced - lanes.width
    seen := s.seen.absorbLanes lanes reg }

/-- Load one register and place its lanes. -/
def step (lanes : Lanes) (test : Test) (pivots : Register α lanes.width)
    (s : Sweep α lanes.width) : Sweep α lanes.width :=
  let (reg, s) := s.take
  s.place lanes test pivots reg

/-- Load and place a number of registers. -/
def steps (lanes : Lanes) (test : Test) (pivots : Register α lanes.width) :
    Nat → Sweep α lanes.width → Sweep α lanes.width
  | 0, s => s
  | n + 1, s => steps lanes test pivots n (s.step lanes test pivots)

/-- The state in which nothing in `[left, right)` has been read. -/
def start (lanes : Lanes) (mem : Array α) (left right : Nat) (seen : Extremes α) :
    Sweep α lanes.width where
  mem := mem
  left := left
  right := right
  store := left
  unplaced := right - left - lanes.width
  seen := seen.spread lanes.width

/-- Hold back the registers at both ends of the range. -/
def holdEnds (lanes : Lanes) (s : Sweep α lanes.width) :
    Register α lanes.width × Register α lanes.width × Sweep α lanes.width :=
  (load lanes.width s.mem s.left, load lanes.width s.mem (s.right - lanes.width),
    { s with left := s.left + lanes.width, right := s.right - lanes.width })

/-- Partition the registers of the range `[left, right)`, a positive number of them. -/
def run (lanes : Lanes) (test : Test) (pivot : α) (mem : Array α) (left right : Nat)
    (seen : Extremes α) : Sweep α lanes.width :=
  let pivots := broadcast lanes.width pivot
  let s := start lanes mem left right seen
  if right - left = lanes.width then
    -- one register: its lanes go back to the slots they were loaded from
    s.place lanes test pivots (load lanes.width mem left)
  else
    let (first, last, s) := s.holdEnds lanes
    let s := steps lanes test pivots ((s.right - s.left) / lanes.width) s
    -- two registers' worth of slots is free now
    (s.place lanes test pivots first).place lanes test pivots last

/-! ### Bounds -/

@[simp] theorem size_mem_take {width : Nat} (s : Sweep α width) :
    s.take.2.mem.size = s.mem.size := by
  unfold take
  split <;> rfl

@[simp] theorem store_take {width : Nat} (s : Sweep α width) : s.take.2.store = s.store := by
  unfold take
  split <;> rfl

@[simp] theorem size_mem_place (lanes : Lanes) (test : Test) (pivots reg : Register α lanes.width)
    (s : Sweep α lanes.width) : (s.place lanes test pivots reg).mem.size = s.mem.size := by
  simp [place]

/-- Placing one register moves the store position by at most one register. -/
theorem store_place_le (lanes : Lanes) (test : Test) (pivots reg : Register α lanes.width)
    (s : Sweep α lanes.width) :
    (s.place lanes test pivots reg).store ≤ s.store + lanes.width := by
  simp only [place]
  omega

theorem size_mem_steps (lanes : Lanes) (test : Test) (pivots : Register α lanes.width) (n : Nat)
    (s : Sweep α lanes.width) : (steps lanes test pivots n s).mem.size = s.mem.size := by
  induction n generalizing s with
  | zero => rfl
  | succ n ih => simp [steps, ih, step]

theorem store_steps_le (lanes : Lanes) (test : Test) (pivots : Register α lanes.width) (n : Nat)
    (s : Sweep α lanes.width) :
    (steps lanes test pivots n s).store ≤ s.store + n * lanes.width := by
  induction n generalizing s with
  | zero => simp [steps]
  | succ n ih =>
    have h₁ := ih (s.step lanes test pivots)
    have h₂ := store_place_le lanes test pivots s.take.1 s.take.2
    simp only [store_take] at h₂
    simp only [steps, step] at h₁ ⊢
    rw [Nat.succ_mul]
    omega

/-- A sweep keeps the length of the memory. -/
theorem size_mem_run (lanes : Lanes) (test : Test) (pivot : α) (mem : Array α) (left right : Nat)
    (seen : Extremes α) : (run lanes test pivot mem left right seen).mem.size = mem.size := by
  unfold run
  split
  · simp [start]
  · simp [holdEnds, size_mem_steps, start]

/-- A sweep over at least one register ends with its store position inside the range. -/
theorem store_run_le (lanes : Lanes) (test : Test) (pivot : α) (mem : Array α) (left right : Nat)
    (seen : Extremes α) (h : lanes.width ∣ right - left) (hlt : left < right) :
    (run lanes test pivot mem left right seen).store ≤ right := by
  obtain ⟨k, hk⟩ := h
  have hpos := lanes.width_pos
  have place_le := store_place_le lanes test (broadcast lanes.width pivot)
  unfold run
  split
  · have := place_le (load lanes.width mem left) (start lanes mem left right seen)
    simp only [start] at this ⊢
    omega
  · rename_i hne
    obtain ⟨m, rfl⟩ : ∃ m, k = m + 2 := by
      match k, hk with
      | 0, hk => omega
      | 1, hk => omega
      | m + 2, _ => exact ⟨m, rfl⟩
    simp only [holdEnds, start]
    have hcount : (right - lanes.width - (left + lanes.width)) / lanes.width = m := by
      rw [show right - lanes.width - (left + lanes.width) = lanes.width * m by
        rw [Nat.mul_add] at hk; omega]
      exact Nat.mul_div_cancel_left m hpos
    rw [hcount]
    refine Nat.le_trans (place_le _ _) ?_
    refine Nat.le_trans (Nat.add_le_add_right (place_le _ _) _) ?_
    refine Nat.le_trans (Nat.add_le_add_right (Nat.add_le_add_right
      (store_steps_le lanes test _ m _) _) _) ?_
    rw [Nat.mul_add, Nat.mul_comm lanes.width m] at hk
    simp only
    omega

end Sweep

end VectorizedSort
