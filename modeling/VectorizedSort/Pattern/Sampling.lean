import VectorizedSort.Pattern.Sampler
import VectorizedSort.Pattern.Stream

/-! # Sampling the random stream

Drawing integers, floats and truth values from the words of a random stream. An integer below a bound
is the high half of the product of a word and the bound; words whose low half lies outside of a zone
are drawn again, so that all integers are equally likely. Together these draws are the sampler that
patterns are made with when nothing else is asked for. -/

namespace VectorizedSort

namespace Generator

/-! ### Indices -/

/-- The high half of the product of a word and a positive bound. -/
def highHalf (bound : Nat) (h : 0 < bound) (w : UInt32) : Fin bound :=
  ⟨w.toNat * bound / 0x100000000,
    Nat.div_lt_of_lt_mul (Nat.mul_lt_mul_of_pos_right w.toNat_lt h)⟩

/-- How often a word may be drawn again. Drawing into a zone has no such limit of its own: it goes on
until a word falls into the zone. The limit, and taking the next word as it is where the limit is
reached, belong to this definition alone. Every second word or more falls into a zone, so it takes a
thousand misses in a row to get there. -/
def redraws : Nat := 1000

/-- A number below a positive bound, from the first word that falls into the zone. -/
def scaled (bound : Nat) (h : 0 < bound) (zone : Nat) : (redraws : Nat) → Draw (Fin bound)
  | 0 => do return highHalf bound h (← word)
  | n + 1 => do
    let w ← word
    if w.toNat * bound % 0x100000000 ≤ zone then return highHalf bound h w
    else scaled bound h zone n

/-- One of a positive number of indices that fits into a word. The zone ends below the count moved up
to the highest place of a word. -/
def index (count : Nat) (h : 0 < count) : Draw (Fin count) :=
  scaled count h (count <<< (31 - count.log2) - 1) redraws

/-! ### Integers -/

/-- Any integer. -/
def integer : Draw Int32 := do return (← word).toInt32

/-- An integer between bounds that are not empty. A number of integers that is no word is that of all
of them. -/
def integerWithin (b : IntBounds) : Draw Int32 :=
  let size := b.size % 0x100000000
  if h : size = 0 then integer
  else do
    -- the low halves above the zone would make some integers more likely than others
    let zone := 0xffffffff - (0x100000000 - size) % size
    let offset ← scaled size (Nat.pos_of_ne_zero h) zone redraws
    return Int32.ofInt (b.low.toInt + offset)

/-! ### Floats -/

/-- A float from minus one million up to one million: 23 random digits after the point, scaled and
shifted, each step rounded. -/
def float : Draw Binary32 := do
  let w ← word
  let unit : Rat := ((w >>> 9).toNat : Rat) / 0x800000
  return .ofRat (BinaryFormat.single.nearest (unit * 2000000) - 1000000)

/-! ### Truth values -/

/-- True with a given probability. Nothing is drawn if that is certain. -/
def chance (probability : Rat) : Draw Bool :=
  if probability = 1 then return true
  else do
    let w ← wideWord
    return decide ((w.toNat : Int) < (probability * 0x10000000000000000).floor)

end Generator

/-- The sampler that draws from the random stream of a seed. -/
def Sampler.stream : Sampler where
  State := Generator
  ofSeed := Generator.ofSeed
  integer := Generator.integer
  integerWithin := Generator.integerWithin
  float := Generator.float
  index := Generator.index
  chance := Generator.chance

end VectorizedSort
