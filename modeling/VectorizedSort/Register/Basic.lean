import VectorizedSort.Element.Basic
import VectorizedSort.Slice

/-! # Registers, masks and memory

A register holds a fixed number of elements, its lanes, and a mask holds one Boolean per lane. The
memory that registers are loaded from and stored to is an array. Positions are never checked:
loading past the end yields zeros and storing there does nothing, so a caller that stays inside
the array sees plain loads and stores. -/

namespace VectorizedSort

/-- The elements of one register, lane by lane. -/
abbrev Register (α : Type) (width : Nat) : Type := Vector α width

/-- The selected lanes of a register. -/
abbrev Mask (width : Nat) : Type := Vector Bool width

/-- What a compacting store leaves: the memory, and how many lanes its mask selected. -/
structure Compacted (α : Type) where
  /-- The memory after the store. -/
  mem : Array α
  /-- The number of selected lanes. -/
  selected : Nat

variable {α : Type} {width : Nat}

/-- A register with one value in all lanes. -/
def broadcast (width : Nat) (value : α) : Register α width := Vector.replicate width value

/-- The element in a slot of the memory. -/
def peek [Element α] (mem : Array α) (pos : Nat) : α := mem.getD pos Element.zero

/-- The register whose lanes stand in consecutive slots from `pos` on. -/
def load [Element α] (width : Nat) (mem : Array α) (pos : Nat) : Register α width :=
  Vector.ofFn fun lane => peek mem (pos + lane)

/-- Write the selected elements of a list to their own slots, counted from `pos` on. -/
def writeSelected (mem : Array α) (pos : Nat) : List (Bool × α) → Array α
  | [] => mem
  | (true, x) :: rest => writeSelected (mem.setIfInBounds pos x) (pos + 1) rest
  | (false, _) :: rest => writeSelected mem (pos + 1) rest

/-- Store all lanes of a register to consecutive slots from `pos` on. -/
def store (mem : Array α) (pos : Nat) (reg : Register α width) : Array α :=
  writeList mem pos reg.toList

/-- The lanes of a register, each with its bit of the mask. -/
def taggedLanes (mask : Mask width) (reg : Register α width) : List (Bool × α) :=
  mask.toList.zip reg.toList

@[simp] theorem size_writeSelected (mem : Array α) (pos : Nat) (lanes : List (Bool × α)) :
    (writeSelected mem pos lanes).size = mem.size := by
  fun_induction writeSelected mem pos lanes <;> simp_all

@[simp] theorem size_store (mem : Array α) (pos : Nat) (reg : Register α width) :
    (store mem pos reg).size = mem.size := by
  simp [store]

end VectorizedSort
