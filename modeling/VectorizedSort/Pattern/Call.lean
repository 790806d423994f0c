import VectorizedSort.Pattern.Sampling
import VectorizedSort.Pattern.Seed
import VectorizedSort.Pattern.Shape

/-! # Pattern calls

The calls that make input patterns, with any sampler. A random pattern starts a state of the sampler
from the seed of the call, so calls with one seed draw the same values. Calls run one after another
and share what is known about the seeds. -/

namespace VectorizedSort

/-- The calls. -/
inductive PatternCall where
  | random (length : Nat)
  | randomWithin (length : Nat) (bounds : IntBounds)
  | randomSorted (length : Nat) (percent : Percentage)
  | allEqual (length : Nat)
  | ascending (length : Nat)
  | descending (length : Nat)
  | sawAscending (length teeth : Nat)
  | sawDescending (length teeth : Nat)
  | sawMixed (length teeth : Nat)
  | pipeOrgan (length : Nat)
  | randomFloats (length : Nat)
  | randomEdgeFloats (length : Nat)
  | randomFloatsWithNaN (length : Nat) (percent : Percentage)
  | toFloats (items : List Int32)
  | seed
  | renewSeedEachTime

/-- The answers. -/
inductive PatternAnswer where
  | integers (items : List Int32)
  | floats (items : List Binary32)
  | seed (value : UInt64)
  | done
deriving DecidableEq

namespace Pattern

/-- The number of elements that an array of 32-bit elements can have, its bytes being counted by a
signed 64-bit word. -/
def maxLength : Nat := 0x1fffffffffffffff

/-- Refuse to make an array that is too long. -/
def checkLength (length : Nat) : Making Unit :=
  if maxLength < length then throw .arrayTooLong else return ()

section Sampled

variable (sampler : Sampler)

/-- Any integers. -/
def random (length : Nat) : Making (List Int32) := do
  let state ← Seeds.stateOf sampler
  checkLength length
  return (Sampler.repeated sampler.integer length state).1

/-- Integers between bounds. The seed is needed before the bounds are looked at. -/
def randomWithin (length : Nat) (bounds : IntBounds) : Making (List Int32) := do
  let state ← Seeds.stateOf sampler
  if bounds.isEmpty then throw (.emptyBounds bounds.inclusive)
  checkLength length
  return (Sampler.repeated (sampler.integerWithin bounds) length state).1

/-- Any integers, the first of them sorted. -/
def randomSorted (length : Nat) (percent : Percentage) : Making (List Int32) := do
  let items ← random sampler length
  let count := Shape.share length percent
  if length < count then throw (.sortedPastEnd count length)
  return Shape.sortedStart count items

/-- A saw of random integers. Nothing is drawn for an empty one. -/
def saw (length teeth : Nat) (goesDown : Nat → Bool) : Making (List Int32) := do
  if length = 0 then return []
  let items ← random sampler length
  return Shape.saw teeth goesDown items

/-- A saw whose teeth go up or down at random. There is one direction more than teeth asked for, and
the directions repeat if there are more teeth than directions. The directions are counted with the
overflow check of a build that is being tested: where that check is left out, the largest word would
count as no directions at all. -/
def sawMixed (length teeth : Nat) : Making (List Int32) := do
  if UInt64.size ≤ max 1 teeth + 1 then throw .countOverflow
  let directions := (← randomWithin sampler (max 1 teeth + 1) ⟨0, 1, true⟩).toArray
  saw sampler length teeth fun number => directions.getD (number % directions.size) 0 == 1

/-- Random floats. -/
def randomFloats (length : Nat) : Making (List Binary32) := do
  let state ← Seeds.stateOf sampler
  checkLength length
  return (Sampler.repeated sampler.float length state).1

/-- The floats at the edges of the format and a few others: both infinities, the largest finite
floats, both zeros and the smallest normal float. -/
def edges : Vector Binary32 9 :=
  #v[⟨0xff800000⟩, ⟨0xff7fffff⟩, ⟨0xbfc00000⟩, ⟨0x80000000⟩, ⟨0x00000000⟩, ⟨0x00800000⟩,
    ⟨0x40200000⟩, ⟨0x7f7fffff⟩, ⟨0x7f800000⟩]

/-- Floats at the edges of the format. -/
def randomEdgeFloats (length : Nat) : Making (List Binary32) := do
  let state ← Seeds.stateOf sampler
  checkLength length
  let indices := (Sampler.repeated (sampler.index 9 (by decide)) length state).1
  return indices.map edges.get

/-- Replace elements by a NaN, each with the same probability. -/
def sprinkle (probability : Rat) : List Binary32 → sampler.Draw (List Binary32)
  | [] => return []
  | x :: xs => do
    let hit ← sampler.chance probability
    let rest ← sprinkle probability xs
    return (if hit then .quietNaN else x) :: rest

/-- Random floats with some of them replaced by a NaN. The floats and the choice of those that are
replaced are drawn from states of their own. Without any floats the percentage is not looked at. -/
def randomFloatsWithNaN (length : Nat) (percent : Percentage) : Making (List Binary32) := do
  -- the seed is needed twice: for the choices and for the floats
  let state ← Seeds.stateOf sampler
  let items ← randomFloats sampler length
  if length = 0 then return items
  match percent.probability? with
  | some probability => return (sprinkle sampler probability items state).1
  | none => throw .invalidProbability

end Sampled

/-- The same integer everywhere. -/
def allEqual (length : Nat) : Making (List Int32) := do
  checkLength length
  return List.replicate length 66

end Pattern

namespace PatternCall

/-- Run one call with a sampler. -/
def runWith (sampler : Sampler) : PatternCall → Making PatternAnswer
  | random length => return .integers (← Pattern.random sampler length)
  | randomWithin length bounds => return .integers (← Pattern.randomWithin sampler length bounds)
  | randomSorted length percent => return .integers (← Pattern.randomSorted sampler length percent)
  | allEqual length => return .integers (← Pattern.allEqual length)
  | ascending length => return .integers (Shape.counting length)
  | descending length => return .integers (Shape.counting length).reverse
  | sawAscending length teeth =>
    return .integers (← Pattern.saw sampler length teeth fun _ => false)
  | sawDescending length teeth =>
    return .integers (← Pattern.saw sampler length teeth fun _ => true)
  | sawMixed length teeth => return .integers (← Pattern.sawMixed sampler length teeth)
  | pipeOrgan length => return .integers (Shape.pipeOrgan (← Pattern.random sampler length))
  | randomFloats length => return .floats (← Pattern.randomFloats sampler length)
  | randomEdgeFloats length => return .floats (← Pattern.randomEdgeFloats sampler length)
  | randomFloatsWithNaN length percent =>
    return .floats (← Pattern.randomFloatsWithNaN sampler length percent)
  | toFloats items => return .floats (items.map Binary32.ofInt32)
  | seed => return .seed (← Seeds.current)
  | renewSeedEachTime => do
    Seeds.renewEachTime
    return .done

/-- Run calls one after another with a sampler. A call that fails does not stop the later ones. -/
def runAllWith (sampler : Sampler) (seeds : Seeds) :
    List PatternCall → List (Except PatternFault PatternAnswer) × Seeds
  | [] => ([], seeds)
  | call :: calls =>
    let (answer, seeds) := (call.runWith sampler).run.run seeds
    let (answers, seeds) := runAllWith sampler seeds calls
    (answer :: answers, seeds)

/-- Run one call with the random stream of the seed. -/
def run (call : PatternCall) : Making PatternAnswer := call.runWith .stream

/-- Run calls one after another with the random streams of their seeds. -/
def runAll (seeds : Seeds) (calls : List PatternCall) :
    List (Except PatternFault PatternAnswer) × Seeds := runAllWith .stream seeds calls

end PatternCall

end VectorizedSort
