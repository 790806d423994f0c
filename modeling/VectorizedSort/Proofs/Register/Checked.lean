import VectorizedSort.Proofs.Register.Exchange

/-! # Exchanges in a memory that refuses

The register operations read a zero and write nothing where the memory ends, which no caller could
tell from an access that is allowed. Here the exchanges are carried out in a memory that gives up as
soon as a slot is read or written that it does not have. They read and write the slots of their
pairs only, so in a memory that holds the pairs they go through and do what they do elsewhere. -/

namespace VectorizedSort

variable {α : Type}

/-- Write to a slot, if there is one. -/
def write? (mem : Array α) (pos : Nat) (x : α) : Option (Array α) :=
  if pos < mem.size then some (mem.setIfInBounds pos x) else none

theorem write?_of_lt {mem : Array α} {pos : Nat} (h : pos < mem.size) (x : α) :
    write? mem pos x = some (mem.setIfInBounds pos x) := if_pos h

/-- Every selected lane of a register at the given position has a slot. -/
def Reachable {width : Nat} (mem : Array α) (pos : Nat) (mask : Mask width) : Prop :=
  ∀ lane : Fin width, mask.get lane = true → pos + lane < mem.size

instance {width : Nat} (mem : Array α) (pos : Nat) (mask : Mask width) :
    Decidable (Reachable mem pos mask) :=
  inferInstanceAs (Decidable (∀ lane : Fin width, mask.get lane = true → pos + lane < mem.size))

variable [Element α]

/-! ### By scalar code -/

namespace Scalar

/-- Put two neighbouring elements in order, if their slots exist. -/
def exchangePair? (mem : Array α) (pos : Nat) : Option (Array α) := do
  let a ← mem[pos]?
  let b ← mem[pos + 1]?
  let inOrder := Element.lt a b
  let mem ← write? mem pos (if inOrder then a else b)
  write? mem (pos + 1) (if inOrder then b else a)

/-- Put `count` neighbouring pairs in order, if their slots exist. -/
def exchangePairs? (mem : Array α) (pos : Nat) : (count : Nat) → Option (Array α)
  | 0 => some mem
  | count + 1 => do
    let mem ← exchangePair? mem pos
    exchangePairs? mem (pos + 2) count

theorem exchangePair?_eq_some {mem : Array α} {pos : Nat} (h : pos + 1 < mem.size) :
    exchangePair? mem pos = some (exchangePair mem pos) := by
  have hpos : pos < mem.size := Nat.lt_of_succ_lt h
  have hfirst : mem[pos]? = some (peek mem pos) := by simp [peek, hpos]
  have hsecond : mem[pos + 1]? = some (peek mem (pos + 1)) := by simp [peek, h]
  rw [exchangePair?, hfirst, hsecond]
  simp only [Option.bind_eq_bind, Option.bind_some]
  rw [write?_of_lt hpos, Option.bind_some, write?_of_lt (by rwa [Array.size_setIfInBounds])]
  rfl

theorem exchangePairs?_eq_some {mem : Array α} {pos count : Nat}
    (h : pos + 2 * count ≤ mem.size) :
    exchangePairs? mem pos count = some (exchangePairs mem pos count) := by
  induction count generalizing mem pos with
  | zero => rfl
  | succ count ih =>
    have hsize : (exchangePair mem pos).size = mem.size := by simp [exchangePair]
    rw [exchangePairs?, exchangePair?_eq_some (by omega), Option.bind_eq_bind, Option.bind_some,
      ih (by omega), exchangePairs]

end Scalar

/-! ### By shuffles -/

namespace Shuffle

/-- Load the selected lanes and fill the others with zeros, if the selected lanes have slots. -/
def loadOrZero? (mem : Array α) (pos : Nat) (mask : Mask 8) : Option (Register α 8) :=
  if Reachable mem pos mask then some (loadOrZero mem pos mask) else none

omit [Element α] in
/-- Store the selected lanes, if they have slots. -/
def maskedStore? (mem : Array α) (pos : Nat) (mask : Mask 8) (reg : Register α 8) :
    Option (Array α) :=
  if Reachable mem pos mask then some (maskedStore mem pos mask reg) else none

/-- Put `count` neighbouring pairs in order, if the lanes that are loaded and stored have slots. -/
def exchangePairs? (mem : Array α) (pos count : Nat) : Option (Array α) := do
  let loMask := firstLanes (2 * count)
  let hiMask := firstLanes (2 * count - 8)
  let lo ← loadOrZero? mem pos loMask
  let hi ← loadOrZero? mem (pos + 8) hiMask
  let pairs := orderedPairs lo hi
  let mem ← maskedStore? mem pos loMask pairs.1
  maskedStore? mem (pos + 8) hiMask pairs.2

omit [Element α] in
/-- Under the mask of the first lanes, only the slots of these are needed. -/
theorem reachable_firstLanes {mem : Array α} {pos n : Nat}
    (h : ∀ lane < min n 8, pos + lane < mem.size) : Reachable mem pos (firstLanes n) := by
  intro lane hlane
  rw [get_firstLanes, decide_eq_true_eq] at hlane
  exact h lane hlane

theorem exchangePairs?_eq_some {mem : Array α} {pos count : Nat}
    (h : pos + 2 * count ≤ mem.size) :
    exchangePairs? mem pos count = some (exchangePairs mem pos count) := by
  -- the mask of the second register leaves out all lanes if the pairs fill the first one only
  have hlo {mem' : Array α} (hsize : mem'.size = mem.size) :
      Reachable mem' pos (firstLanes (2 * count)) :=
    reachable_firstLanes fun lane hlane => by omega
  have hhi {mem' : Array α} (hsize : mem'.size = mem.size) :
      Reachable mem' (pos + 8) (firstLanes (2 * count - 8)) :=
    reachable_firstLanes fun lane hlane => by omega
  rw [exchangePairs?, loadOrZero?, if_pos (hlo rfl), loadOrZero?, if_pos (hhi rfl)]
  simp only [Option.bind_eq_bind, Option.bind_some]
  rw [maskedStore?, if_pos (hlo rfl), Option.bind_some, maskedStore?,
    if_pos (hhi (by simp [maskedStore])), exchangePairs_eq_maskedStore]

end Shuffle

namespace Lanes

/-- Put neighbouring pairs in order, unless there are more pairs than lanes or a slot is missing. -/
def exchangePairs? : (lanes : Lanes) → Array α → (pos count : Nat) → Option (Array α)
  | portable width _, mem, pos, count =>
    if count ≤ width then Scalar.exchangePairs? mem pos count else none
  | avx2, mem, pos, count => if count ≤ 8 then Shuffle.exchangePairs? mem pos count else none

/-- Whatever the lane set is, pairs that lie inside the memory are put in order without an access to
any other slot. -/
theorem exchangePairs?_eq_some (lanes : Lanes) {mem : Array α} {pos count : Nat}
    (hcount : count ≤ lanes.width) (h : pos + 2 * count ≤ mem.size) :
    lanes.exchangePairs? mem pos count = some (lanes.exchangePairs mem pos count) := by
  cases lanes with
  | portable width width_pos => exact (if_pos hcount).trans (Scalar.exchangePairs?_eq_some h)
  | avx2 => exact (if_pos hcount).trans (Shuffle.exchangePairs?_eq_some h)

end Lanes

end VectorizedSort
