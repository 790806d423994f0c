import VectorizedSort.Partition.Range
import VectorizedSort.Slice
import VectorizedSort.Sort.Heap
import VectorizedSort.Sort.Insertion
import VectorizedSort.Sort.Network
import VectorizedSort.Sort.Pivot

/-! # The quicksort

Ranges of an array are partitioned until only short runs are left, which the exchange network
finishes. Waiting ranges stand on a work stack of fixed capacity. Each carries the number of
partition levels it may still spend; a range that has spent all of them is heapsorted, which bounds
the work. A side that needs no sorting, because it only holds elements equal to the pivot or
unordered ones, is not pushed. -/

namespace VectorizedSort

variable {α : Type} [Element α]

/-! ### One partition level -/

/-- What one partition level makes of a range. -/
structure Level (α : Type) where
  /-- The rearranged elements. -/
  items : Array α
  /-- The pivot. -/
  pivot : α
  /-- The extremes of the elements. -/
  seen : Extremes α
  /-- Where the elements from the pivot on start. -/
  boundary : Nat
  /-- Where the elements that still have to be sorted on the right start. -/
  rightStart : Nat

namespace Level

/-- Partition a range around its pivot. If the pivot is the smallest element, the elements equal to
it are split off as well, since the same pivot could be chosen again. -/
def ofRange (lanes : Lanes) (range : Array α) (h : 0 < range.size) : Level α :=
  let pivot := choosePivot range h
  let split := partitionRange lanes .atLeast range pivot .seed
  if !Element.eqv pivot split.seen.biggest && Element.eqv pivot split.seen.smallest then
    -- from the boundary on, only what is strictly above the pivot is left to sort
    let rest := slice split.items split.boundary split.items.size
    let equal := partitionPass lanes .above rest pivot
    ⟨splice split.items split.boundary equal.items, pivot, split.seen, split.boundary,
      split.boundary + equal.boundary⟩
  else
    ⟨split.items, pivot, split.seen, split.boundary, split.boundary⟩

/-- Whether the right side still has to be sorted. If the pivot is the biggest element, everything
there equals it. -/
def sortsRight (level : Level α) : Bool := !Element.eqv level.pivot level.seen.biggest

/-- Whether the left side still has to be sorted. If the pivot is the smallest element, only
unordered elements stand there. -/
def sortsLeft (level : Level α) : Bool := !Element.eqv level.pivot level.seen.smallest

end Level

/-! ### The work stack -/

/-- A range that waits to be sorted. -/
structure Pending where
  /-- The first position. -/
  left : Nat
  /-- The position after the last one. -/
  right : Nat
  /-- The number of partition levels that may be spent on it. -/
  limit : Nat
deriving DecidableEq

namespace Pending

/-- A bound on the number of ranges that come of one range with the given number of levels: the
range itself and those of its two parts. -/
def descendants : (limit : Nat) → Nat
  | 0 => 1
  | limit + 1 => 2 * descendants limit + 1

/-- A bound on the number of steps that a waiting range takes. -/
def weight (p : Pending) : Nat := descendants p.limit

/-- The parts of a range that wait after a level has been spent on it, in the order in which they
are pushed. -/
def parts (p : Pending) (limit : Nat) (level : Level α) : List Pending :=
  (if level.sortsRight then [⟨p.left + level.rightStart, p.right, limit⟩] else []) ++
    (if level.sortsLeft then [⟨p.left, p.left + level.boundary, limit⟩] else [])

end Pending

/-- The number of ranges the work stack has room for: two levels for each bit of a length, and two
more. -/
def stackCapacity : Nat := 130

/-- Put a range on the work stack. -/
def push (stack : List Pending) (p : Pending) : Except Fault (List Pending) :=
  if stack.length < stackCapacity then .ok (p :: stack) else .error .workStackFull

/-- Put several ranges on the work stack, the last one on top. -/
def pushAll (stack : List Pending) : List Pending → Except Fault (List Pending)
  | [] => .ok stack
  | p :: ps =>
    match push stack p with
    | .ok stack => pushAll stack ps
    | .error fault => .error fault

/-! ### The loop -/

/-- An array with the ranges of it that wait to be sorted, the next one first. -/
structure Work (α : Type) where
  items : Array α
  stack : List Pending

namespace Work

/-- Treat one range, with `rest` waiting below it: leave it alone if it is short, heapsort it if its
levels are spent, and partition it otherwise. -/
def step (lanes : Lanes) (items : Array α) (p : Pending) (rest : List Pending) :
    Except Fault (Work α) :=
  let range := slice items p.left p.right
  if h : range.size ≤ runThreshold then
    .ok ⟨items, rest⟩
  else
    match p.limit with
    -- no level is left to spend
    | 0 => .ok ⟨splice items p.left (heapSort range), rest⟩
    | limit + 1 =>
      let level := Level.ofRange lanes range (by omega)
      match pushAll rest (p.parts limit level) with
      | .ok stack => .ok ⟨splice items p.left level.items, stack⟩
      | .error fault => .error fault

/-- A bound on the number of steps that a work stack takes. -/
def weight : List Pending → Nat
  | [] => 0
  | p :: ps => p.weight + weight ps

theorem push_eq_ok {stack stack' : List Pending} {p : Pending} (h : push stack p = .ok stack') :
    stack' = p :: stack := by
  unfold push at h
  split at h
  · cases h
    rfl
  · cases h

theorem weight_pushAll {stack ps stack' : List Pending} (h : pushAll stack ps = .ok stack') :
    weight stack' = weight ps + weight stack := by
  induction ps generalizing stack with
  | nil =>
    cases h
    simp [weight]
  | cons p ps ih =>
    simp only [pushAll] at h
    split at h
    · rename_i hp
      have := ih h
      rw [push_eq_ok hp] at this
      simp only [weight] at this ⊢
      omega
    · cases h

/-- The parts of a range weigh less than the range. -/
theorem weight_parts_lt (p : Pending) (limit : Nat) (level : Level α) (h : p.limit = limit + 1) :
    weight (p.parts limit level) < p.weight := by
  unfold Pending.parts
  split <;> split <;> simp [weight, Pending.weight, h, Pending.descendants] <;> omega

/-- Every step makes the work stack lighter. -/
theorem weight_step_lt {lanes : Lanes} {items : Array α} {p : Pending} {rest : List Pending}
    {next : Work α} (h : step lanes items p rest = .ok next) :
    weight next.stack < weight (p :: rest) := by
  have hp : 0 < p.weight := by
    unfold Pending.weight Pending.descendants
    split <;> omega
  have hcons : weight (p :: rest) = p.weight + weight rest := rfl
  unfold step at h
  simp only at h
  split at h
  · cases h
    simp only
    omega
  · split at h
    · cases h
      simp only
      omega
    · rename_i limit hlimit
      split at h
      · rename_i hpush
        cases h
        simp only
        rw [hcons, weight_pushAll hpush]
        exact Nat.add_lt_add_right (weight_parts_lt p limit _ hlimit) _
      · cases h

/-- Treat the waiting ranges until none is left. -/
def run (lanes : Lanes) (items : Array α) (stack : List Pending) : Except Fault (Array α) :=
  match stack with
  | [] => .ok items
  | p :: rest =>
    match _ : step lanes items p rest with
    | .ok next => run lanes next.items next.stack
    | .error fault => .error fault
termination_by weight stack
decreasing_by exact weight_step_lt ‹_›

end Work

/-- Partition an array down to short runs, heapsorting the ranges that `limit` levels do not
suffice for. -/
def quickSort (lanes : Lanes) (v : Array α) (limit : Nat) : Except Fault (Array α) :=
  match push [] ⟨0, v.size, limit⟩ with
  | .ok stack => Work.run lanes v stack
  | .error fault => .error fault

/-! ### The whole sort -/

/-- Whole arrays of at most this many elements are sorted by insertion. -/
def insertionThreshold : Nat := 64

/-- Sort an array: short ones by insertion, longer ones by quicksort and the exchange network, with
two partition levels for every halving of the length. -/
def sortArray (lanes : Lanes) (v : Array α) : Except Fault (Array α) :=
  if v.size ≤ insertionThreshold then
    if 2 ≤ v.size then insertionSort v 1 else .ok v
  else
    match quickSort lanes v (2 * v.size.log2) with
    | .ok runs => .ok (exchangeSort lanes runs)
    | .error fault => .error fault

end VectorizedSort
