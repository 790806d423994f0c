import VectorizedSort.Element.Binary32

/-! # Samplers

What input patterns draw at random. A sampler starts a state from a seed and draws one value after
another from it, and a state determines all that is drawn from it. Nothing else is known about a
sampler, so what is said of patterns holds for every one. -/

namespace VectorizedSort

/-- The integers from `low` to `high`, with or without `high` itself. -/
structure IntBounds where
  low : Int32
  high : Int32
  inclusive : Bool
deriving DecidableEq

namespace IntBounds

/-- Whether there is no integer between the bounds. -/
def isEmpty (b : IntBounds) : Bool :=
  if b.inclusive then decide (b.high.toInt < b.low.toInt) else decide (b.high.toInt ≤ b.low.toInt)

/-- The number of integers between the bounds. -/
def size (b : IntBounds) : Nat :=
  (b.high.toInt - b.low.toInt + if b.inclusive then 1 else 0).toNat

end IntBounds

/-- A way to draw random values. -/
structure Sampler where
  /-- What values are drawn from. -/
  State : Type
  /-- The state that a seed starts. -/
  ofSeed : UInt64 → State
  /-- Any integer. -/
  integer : StateM State Int32
  /-- An integer between bounds that are not empty. -/
  integerWithin : IntBounds → StateM State Int32
  /-- A float from minus one million up to one million. -/
  float : StateM State Binary32
  /-- One of a positive number of indices. -/
  index : (count : Nat) → 0 < count → StateM State (Fin count)
  /-- True with a given probability. -/
  chance : Rat → StateM State Bool

namespace Sampler

/-- A computation that draws from a state of a sampler. -/
abbrev Draw (sampler : Sampler) (β : Type) : Type := StateM sampler.State β

/-- Draw a number of times. -/
def repeated {sampler : Sampler} {β : Type} (draw : sampler.Draw β) :
    (count : Nat) → sampler.Draw (List β)
  | 0 => return []
  | n + 1 => do
    let x ← draw
    let xs ← repeated draw n
    return x :: xs

end Sampler

end VectorizedSort
