import VectorizedSort.Bounds
import VectorizedSort.Log
import VectorizedSort.Sort.Quick

/-! # Sorting and partitioning typed arrays

The entry points for arrays whose element type is known. They run on the backend selected for the
process, on a given backend, or on a given lane set, and they log what they are about to do unless
the lane set is given. -/

namespace VectorizedSort

/-- The processor together with the backend that was selected for the process. -/
structure Host where
  cpu : Cpu
  selected : Backend

/-- Select a backend for a process, once, under an optional request. -/
def Host.start (cpu : Cpu) (request : Option String) : Logged Host :=
  let choice := cpu.choose request
  ⟨⟨cpu, choice.backend⟩,
    (choice.refusal.map fun refusal => Record.requestRefused refusal choice.backend).toList ++
      [.selected choice.backend]⟩

/-- The number of elements in a register of the portable backend. -/
def portableWidth : Nat := 4

/-- The lane set of a backend, that of the portable one where the processor cannot execute it. -/
def Cpu.lanes (cpu : Cpu) : Backend → Lanes
  | .avx2 => if cpu.hasAvx2 then .avx2 else .portable portableWidth (by decide)
  | .portable => .portable portableWidth (by decide)

variable {α : Type} [Element α]

/-! ### On a backend -/

/-- Sort an array on a given backend. -/
def sortOn (cpu : Cpu) (backend : Backend) (v : Array α) : Except Fault (Logged (Array α)) :=
  (sortArray (cpu.lanes backend) v).map fun sorted =>
    ⟨sorted, [.sorting v.size (Element.kind α) backend]⟩

/-- Partition an array around the elements at two indices on a given backend. -/
def partitionOn (cpu : Cpu) (backend : Backend) (v : Array α) (index1 index2 : Nat) :
    Except Fault (Logged (Bands α)) :=
  (partitionBandsAt (cpu.lanes backend) v index1 index2).map fun bands =>
    ⟨bands, [.partitioning v.size (Element.kind α) index1 index2 backend]⟩

/-! ### On the selected backend -/

/-- Sort an array. -/
def sort (host : Host) (v : Array α) : Except Fault (Logged (Array α)) :=
  sortOn host.cpu host.selected v

/-- Partition an array around the elements at two indices, which must lie inside it. -/
def partition (host : Host) (v : Array α) (index1 index2 : Nat) :
    Except Fault (Logged (Bands α)) :=
  if index1 < v.size ∧ index2 < v.size then
    partitionOn host.cpu host.selected v index1 index2
  else .error (.pivotsOutOfBounds index1 index2 v.size)

/-! ### On a lane set -/

/-- Sort an array with given register operations, which the processor must be able to execute. -/
def sortWith (cpu : Cpu) (lanes : Lanes) (v : Array α) : Except Fault (Array α) :=
  if cpu.supports lanes.backend then sortArray lanes v
  else .error (.backendUnsupported lanes.backend)

/-- Partition an array with given register operations, which the processor must be able to execute,
around the elements at two indices, which must lie inside the array. -/
def partitionWith (cpu : Cpu) (lanes : Lanes) (v : Array α) (index1 index2 : Nat) :
    Except Fault (Bands α) :=
  if cpu.supports lanes.backend then
    if h : index1 < v.size ∧ index2 < v.size then
      .ok (partitionBands lanes v index1 index2 h.1 h.2)
    else .error (.pivotsOutOfBounds index1 index2 v.size)
  else .error (.backendUnsupported lanes.backend)

end VectorizedSort
