/-! # Faults of pattern calls

Why an input pattern cannot be made, each cause with the text it is reported with. -/

namespace VectorizedSort

/-- Why a text is not a 64-bit seed. -/
inductive SeedError where
  /-- There is nothing in it. -/
  | empty
  /-- A character is not a digit, or there is none. -/
  | invalidDigit
  /-- The number is too large. -/
  | overflow
deriving DecidableEq

/-- The name a seed error is reported under. -/
def SeedError.name : SeedError → String
  | empty => "Empty"
  | invalidDigit => "InvalidDigit"
  | overflow => "PosOverflow"

/-- Why a pattern call was given up. -/
inductive PatternFault where
  /-- The seed that was given from outside is not a number. -/
  | seedInvalid (reason : SeedError)
  /-- The seed was lost in an earlier call that failed while it was set. -/
  | seedLost
  /-- New seeds were asked for although one is given from outside. -/
  | seedFixed
  /-- The bounds of a distribution have nothing between them. -/
  | emptyBounds (inclusive : Bool)
  /-- More elements were to be sorted than there are. -/
  | sortedPastEnd (stop length : Nat)
  /-- A probability is negative or above one. -/
  | invalidProbability
  /-- An array would have more elements than the bytes of any array allow. -/
  | arrayTooLong
  /-- A number of directions does not fit into a word, in a build with overflow checks. -/
  | countOverflow
deriving DecidableEq

/-- The text a pattern fault is reported with. -/
def PatternFault.message : PatternFault → String
  | seedInvalid reason =>
    s!"OVERRIDE_SEED must be a u64: ParseIntError \x7b kind: {reason.name} \x7d"
  | seedLost => "called `Result::unwrap()` on an `Err` value: PoisonError \x7b .. \x7d"
  | seedFixed => "Using use_random_seed_each_time conflicts with the external seed override."
  | emptyBounds false => "Uniform::new called with `low >= high`"
  | emptyBounds true => "Uniform::new_inclusive called with `low > high`"
  | sortedPastEnd stop length =>
    s!"range end index {stop} out of range for slice of length {length}"
  | invalidProbability => "called `Result::unwrap()` on an `Err` value: InvalidProbability"
  | arrayTooLong => "capacity overflow"
  | countOverflow => "attempt to add with overflow"

end VectorizedSort
