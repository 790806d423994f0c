import VectorizedSort.Entry.Words

/-! # Guarded entry points

The entry points for callers that can neither be trusted nor be answered with an error. They take
every number as a signed 32-bit integer, check all of them before anything is touched, and write
the bounds of a partition to two cells of the caller's memory. A check that fails is logged and ends
the process. -/

namespace VectorizedSort

/-- The memory shared with the caller: the array and the cells for the bounds of a partition. -/
structure Arena where
  words : Array UInt32
  lower : Int32
  upper : Int32
deriving DecidableEq

/-- The ends of a range, if neither is negative and they stand in order. -/
def checkRange (start stop : Int32) : Except Abort (Nat × Nat) :=
  if 0 ≤ start.toInt ∧ 0 ≤ stop.toInt ∧ start.toInt ≤ stop.toInt then
    .ok (start.toInt.toNat, stop.toInt.toNat)
  else .error (.invalidRange start stop)

/-- A pivot index, if it lies in a range. -/
def checkPivot (pivot : Int32) (start stop : Nat) : Except Abort Nat :=
  if (start : Int) ≤ pivot.toInt ∧ pivot.toInt < stop then .ok pivot.toInt.toNat
  else .error (.pivotOutside pivot start stop)

/-- The kind with a tag. -/
def checkTag (tag : Int32) : Except Abort Kind :=
  (Kind.ofTag tag).mapError fun error => .fault (.kind error)

/-- The outcome of a call that ends the process before it touches anything. -/
def Arena.abort (arena : Arena) (cause : Abort) : Outcome Arena Abort Unit :=
  ⟨arena, [.aborting cause], .error cause⟩

/-- The checked arguments of a sort: first the tag, then the range. -/
def checkSort (tag start stop : Int32) : Except Abort (Kind × Nat × Nat) := do
  let kind ← checkTag tag
  let (start, stop) ← checkRange start stop
  return (kind, start, stop)

/-- The checked arguments of a partition: first the tag, then the range, then the two pivots. -/
def checkPartition (tag start stop pivot1 pivot2 : Int32) :
    Except Abort (Kind × Nat × Nat × Nat × Nat) := do
  let (kind, start, stop) ← checkSort tag start stop
  let index1 ← checkPivot pivot1 start stop
  let index2 ← checkPivot pivot2 start stop
  return (kind, start, stop, index1, index2)

/-- Sort a range of the shared array. -/
def guardedSort (host : Host) (arena : Arena) (tag start stop : Int32) :
    Outcome Arena Abort Unit :=
  match checkSort tag start stop with
  | .error cause => arena.abort cause
  | .ok (kind, start, stop) =>
    let sorted := sortWords host arena.words kind start stop
    match sorted.answer with
    | .ok () => ⟨{ arena with words := sorted.memory }, sorted.log, .ok ()⟩
    | .error fault => arena.abort (.fault fault)

/-- Partition a range of the shared array and write the bounds to the shared cells. -/
def guardedPartition (host : Host) (arena : Arena) (tag start stop pivot1 pivot2 : Int32) :
    Outcome Arena Abort Unit :=
  match checkPartition tag start stop pivot1 pivot2 with
  | .error cause => arena.abort cause
  | .ok (kind, start, stop, index1, index2) =>
    let bands := partitionWords host arena.words kind start stop index1 index2
    match bands.answer with
    | .ok (lower, upper) =>
      ⟨⟨bands.memory, Int32.ofNat lower, Int32.ofNat upper⟩, bands.log, .ok ()⟩
    | .error fault => arena.abort (.fault fault)

end VectorizedSort
