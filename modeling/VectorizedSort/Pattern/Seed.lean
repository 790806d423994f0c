import VectorizedSort.Pattern.Fault
import VectorizedSort.Pattern.Sampler

/-! # Where seeds come from

All random patterns of a process are made from seeds. If a seed is given from outside, it is the
only one. Otherwise one seed is drawn when it is first needed and kept, until new seeds are asked
for; from then on every call draws its own. A text given from outside that is not a number makes the
call that first needs a seed fail, and every later one. What is given but is no text is passed over
as if nothing were given. -/

namespace VectorizedSort

/-- The value of a character as a decimal digit. -/
def digitValue? (c : Char) : Option Nat :=
  if '0' ≤ c ∧ c ≤ '9' then some (c.toNat - '0'.toNat) else none

/-- Append digits to a number, from the left, as long as it fits into 64 bits. -/
def appendDigits (n : Nat) : List Char → Except SeedError Nat
  | [] => .ok n
  | c :: cs =>
    match digitValue? c with
    | none => .error .invalidDigit
    | some d => if 10 * n + d < UInt64.size then appendDigits (10 * n + d) cs else .error .overflow

/-- The seed that a text gives: decimal digits, possibly behind a plus sign. -/
def parseSeed (text : String) : Except SeedError UInt64 :=
  let digits := match text.toList with
    | '+' :: rest => rest
    | chars => chars
  if text.isEmpty then .error .empty
  else if digits.isEmpty then .error .invalidDigit
  else (appendDigits 0 digits).map UInt64.ofNat

/-- What a process is given for a seed from outside. -/
inductive GivenSeed where
  /-- Nothing. -/
  | unset
  /-- A text. -/
  | text (value : String)
  /-- Bytes that are the encoding of no text. -/
  | undecodable
deriving DecidableEq

/-- A text or nothing. -/
instance : Coe (Option String) GivenSeed where
  coe given := given.elim .unset .text

/-- The text that was given. What cannot be decoded is treated like nothing. -/
def GivenSeed.text? : GivenSeed → Option String
  | .text value => some value
  | .unset | .undecodable => none

/-- What is known about the seeds of a process. -/
inductive SeedMode where
  /-- No call has needed a seed. -/
  | unset
  /-- A seed was given from outside. -/
  | given (seed : UInt64)
  /-- One seed was drawn for all calls. -/
  | kept (seed : UInt64)
  /-- Every call draws its own seed. -/
  | fresh
  /-- The text given from outside is not a number. -/
  | lost
deriving DecidableEq

/-- The seeds of a process. -/
structure Seeds where
  /-- What was given from outside. -/
  given : GivenSeed
  /-- The source of the seeds that are drawn. -/
  entropy : Nat → UInt64
  /-- The number of seeds drawn so far. -/
  drawn : Nat
  /-- What is known so far. -/
  mode : SeedMode

/-- A computation that may need a seed and may fail. What it learnt about the seeds stays known also
when it fails. -/
abbrev Making (β : Type) : Type := ExceptT PatternFault (StateM Seeds) β

namespace Seeds

/-- The seeds of a process that has made no call. -/
def start (given : GivenSeed) (entropy : Nat → UInt64) : Seeds := ⟨given, entropy, 0, .unset⟩

/-- Draw a seed. -/
def draw : Making UInt64 := do
  let s ← get
  set { s with drawn := s.drawn + 1 }
  return s.entropy s.drawn

/-- The seed for a call that needs one. -/
def current : Making UInt64 := do
  match (← get).mode with
  | .given seed | .kept seed => return seed
  | .fresh => draw
  | .lost => throw .seedLost
  | .unset =>
    match (← get).given.text? with
    | none =>
      let seed ← draw
      modify fun s => { s with mode := .kept seed }
      return seed
    | some text =>
      match parseSeed text with
      | .ok seed =>
        modify fun s => { s with mode := .given seed }
        return seed
      | .error reason =>
        -- the call fails while it sets the seed, so no later call finds one
        modify fun s => { s with mode := .lost }
        throw (.seedInvalid reason)

/-- Let every call from now on draw its own seed, unless one is given from outside. -/
def renewEachTime : Making Unit := do
  let _ ← current
  match (← get).mode with
  | .given _ => throw .seedFixed
  | _ => modify fun s => { s with mode := .fresh }

/-- What the random values of a call are drawn from. -/
def stateOf (sampler : Sampler) : Making sampler.State := do return sampler.ofSeed (← current)

end Seeds

end VectorizedSort
