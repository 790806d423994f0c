import VectorizedSort.Backend.Basic
import VectorizedSort.Element.Kind

/-! # Faults and aborts

The conditions under which an entry point refuses to go on, each with the text it is reported with.
A fault is handed to the caller. The guarded entry points have no way to do that: they report the
cause and end the process. -/

namespace VectorizedSort

/-- Why a call was given up. -/
inductive Fault where
  /-- The elements are of no kind that can be sorted. -/
  | kind (error : KindError)
  /-- An index is not below the length of the array. -/
  | indexOutOfBounds (index length : Nat)
  /-- A range ends before it starts. -/
  | rangeReversed (start stop : Nat)
  /-- A range ends behind the array. -/
  | rangePastEnd (stop length : Nat)
  /-- One of two pivot indices is not below the length of the array. -/
  | pivotsOutOfBounds (pivot1 pivot2 length : Nat)
  /-- Two different pivots are to be taken from one index. -/
  | pivotIndicesEqual
  /-- The part that is said to be sorted is empty or longer than the array. -/
  | offsetOutOfRange
  /-- More ranges wait to be sorted than the work stack has room for. -/
  | workStackFull
  /-- More pairs are to be exchanged at once than a register of the backend has lanes. -/
  | tooManyPairs (backend : Backend)
  /-- The range of words to sort ends before it starts. -/
  | wordsReversed
  /-- The first pivot is not among the words to partition. -/
  | firstPivotOutside
  /-- The second pivot is not among the words to partition. -/
  | secondPivotOutside
  /-- The processor cannot execute the chosen register operations. -/
  | backendUnsupported (backend : Backend)
deriving DecidableEq

/-- The text a fault is reported with. -/
def Fault.message : Fault → String
  | kind error => error.message
  | indexOutOfBounds index length =>
    s!"index out of bounds: the len is {length} but the index is {index}"
  | rangeReversed start stop => s!"slice index starts at {start} but ends at {stop}"
  | rangePastEnd stop length =>
    s!"range end index {stop} out of range for slice of length {length}"
  | pivotsOutOfBounds pivot1 pivot2 length =>
    s!"pivot indices ({pivot1}, {pivot2}) out of bounds for length {length}"
  | pivotIndicesEqual => "assertion failed: pivot1_pos != pivot2_pos"
  | offsetOutOfRange => "assertion failed: offset != 0 && offset <= len"
  | workStackFull => "assertion failed: *stack_len < WORK_STACK_CAPACITY"
  | tooManyPairs .portable => "assertion failed: count <= W"
  | tooManyPairs .avx2 => "assertion failed: count <= LANES"
  | wordsReversed => "assertion failed: from <= to"
  | firstPivotOutside => "assertion failed: from <= pivot1 && pivot1 < to"
  | secondPivotOutside => "assertion failed: from <= pivot2 && pivot2 < to"
  | backendUnsupported backend => s!"lane backend {backend.name} is not supported"

/-- Why a guarded call ended the process. -/
inductive Abort where
  /-- The call itself was given up. -/
  | fault (cause : Fault)
  /-- The range has a negative end or ends before it starts. -/
  | invalidRange (start stop : Int32)
  /-- A pivot index is negative or outside of the range. -/
  | pivotOutside (pivot : Int32) (start stop : Nat)
deriving DecidableEq

/-- The text an abort is reported with. -/
def Abort.message : Abort → String
  | fault cause => s!"lanesort: {cause.message}, aborting"
  | invalidRange start stop => s!"lanesort: invalid range {start}..{stop}, aborting"
  | pivotOutside pivot start stop =>
    s!"lanesort: pivot index {pivot} outside of {start}..{stop}, aborting"

end VectorizedSort
