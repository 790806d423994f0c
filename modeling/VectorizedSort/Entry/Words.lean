import VectorizedSort.Element.Binary32
import VectorizedSort.Entry.Typed

/-! # Sorting and partitioning arrays of words

The entry points for arrays whose element kind is only known when the program runs. The array holds
32-bit words, the kind says how they are read, and all indices are those of the whole array. Only
the given range is rearranged. -/

namespace VectorizedSort

/-- What a call on shared memory leaves: the memory, the log and the answer. -/
structure Outcome (σ ε β : Type) where
  /-- The memory after the call. -/
  memory : σ
  /-- The records that were logged. -/
  log : List Record
  /-- The answer, or why there is none. -/
  answer : Except ε β

/-- The outcome of a call that gives up before it touches anything. -/
def Outcome.giveUp {σ ε β : Type} (memory : σ) (cause : ε) : Outcome σ ε β :=
  ⟨memory, [], .error cause⟩

/-- The elements of the words in `[start, stop)`. -/
def readRange (α : Type) [Element α] (words : Array UInt32) (start stop : Nat) : Array α :=
  (slice words start stop).map Element.ofWord

/-- The words with those from `start` on replaced by the words of some elements. -/
def writeRange {α : Type} [Element α] (words : Array UInt32) (start : Nat) (items : Array α) :
    Array UInt32 :=
  splice words start (items.map Element.toWord)

/-- Sort the words in `[start, stop)`, read as elements of one type. An empty range is left as it
is. -/
def sortWordsAs (α : Type) [Element α] (host : Host) (words : Array UInt32) (start stop : Nat) :
    Outcome (Array UInt32) Fault Unit :=
  if stop < start then .giveUp words .wordsReversed
  else if start = stop then ⟨words, [], .ok ()⟩
  else
    match sort host (readRange α words start stop) with
    | .ok sorted => ⟨writeRange words start sorted.value, sorted.log, .ok ()⟩
    | .error fault => .giveUp words fault

/-- Partition the words in `[start, stop)`, read as elements of one type, around those at two
indices, which must lie in the range. The bounds in the answer are indices of the whole array. -/
def partitionWordsAs (α : Type) [Element α] (host : Host) (words : Array UInt32)
    (start stop index1 index2 : Nat) : Outcome (Array UInt32) Fault (Nat × Nat) :=
  if index1 < start ∨ stop ≤ index1 then .giveUp words .firstPivotOutside
  else if index2 < start ∨ stop ≤ index2 then .giveUp words .secondPivotOutside
  else
    match partition host (readRange α words start stop) (index1 - start) (index2 - start) with
    | .ok bands =>
      ⟨writeRange words start bands.value.items, bands.log,
        .ok (start + bands.value.lower, start + bands.value.upper)⟩
    | .error fault => .giveUp words fault

/-- Sort the words in `[start, stop)` as elements of a kind. The kind is checked first, also for an
empty range. -/
def sortWords (host : Host) (words : Array UInt32) (kind : Kind) (start stop : Nat) :
    Outcome (Array UInt32) Fault Unit :=
  match kind with
  | .int32 => sortWordsAs Int32 host words start stop
  | .float32 => sortWordsAs Binary32 host words start stop
  | .int64 | .float64 => .giveUp words (.kind (.unsupported kind))

/-- Partition the words in `[start, stop)` as elements of a kind around those at two indices. -/
def partitionWords (host : Host) (words : Array UInt32) (kind : Kind)
    (start stop index1 index2 : Nat) : Outcome (Array UInt32) Fault (Nat × Nat) :=
  match kind with
  | .int32 => partitionWordsAs Int32 host words start stop index1 index2
  | .float32 => partitionWordsAs Binary32 host words start stop index1 index2
  | .int64 | .float64 => .giveUp words (.kind (.unsupported kind))

end VectorizedSort
