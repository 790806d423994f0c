import VectorizedSort.Register.Basic

/-! # Register operations by shuffles

The operations of registers with eight lanes on a processor that has whole-register compares,
permutations, blends and masked moves, but no compress. A compacting store permutes the register by
a row that is looked up under the bits of the mask and then stores a prefix and the rest of the
lanes. Integers have no `≥` compare; theirs is the complement of the reversed `>`. An exchange of
neighbours takes the memory apart into even and odd slots and puts it together again. -/

namespace VectorizedSort.Shuffle

variable {α : Type}

/-! ### Masks -/

/-- The number whose binary digits, lowest first, are the given ones. -/
def ofBits : List Bool → Nat
  | [] => 0
  | bit :: rest => bit.toNat + 2 * ofBits rest

/-- The bits of a mask as a number below 256. -/
def maskBits (mask : Mask 8) : Nat := ofBits mask.toList

/-- The number of bits that are set among the lowest eight. -/
def popcount (bits : Nat) : Nat := (List.range 8).countP bits.testBit

/-- The number of selected lanes. -/
def count (mask : Mask 8) : Nat := popcount (maskBits mask)

/-- The lanes that a mask leaves out. -/
def complement (mask : Mask 8) : Mask 8 := Vector.zipWith xor mask (broadcast 8 true)

/-- The mask of the first `n` lanes, of all lanes if there are fewer. -/
def firstLanes (n : Nat) : Mask 8 := Vector.ofFn fun lane => decide (lane.val < min n 8)

/-! ### Permutations and blends -/

/-- The register whose lanes are those of `reg` that `indices` names. -/
def permute (reg : Register α 8) (indices : Vector (Fin 8) 8) : Register α 8 :=
  indices.map fun lane => reg[lane]

/-- The lanes whose bit is clear, then those whose bit is set, each group in lane order. -/
def clearThenSet (bits : Nat) : List (Fin 8) :=
  (List.finRange 8).filter (fun lane => !bits.testBit lane.val) ++
    (List.finRange 8).filter fun lane => bits.testBit lane.val

/-- The permutation that moves the lanes with a clear bit in front of those with a set bit. -/
def compactingRow (bits : Nat) : Vector (Fin 8) 8 :=
  Vector.ofFn fun lane => (clearThenSet bits).getD lane 0

/-- The selected lanes of `b` and the other lanes of `a`. -/
def blend (a b : Register α 8) (mask : Mask 8) : Register α 8 :=
  Vector.ofFn fun lane => if mask[lane] then b[lane] else a[lane]

/-- The low halves of two registers. -/
def lowHalves (a b : Register α 8) : Register α 8 :=
  Vector.ofFn fun lane => if h : lane.val < 4 then a[lane.val] else b[lane.val - 4]

/-- The high halves of two registers. -/
def highHalves (a b : Register α 8) : Register α 8 :=
  Vector.ofFn fun lane => if h : lane.val < 4 then a[lane.val + 4] else b[lane.val]

/-- Take two registers that hold pairs apart into the first and the second members. -/
def deinterleave (lo hi : Register α 8) : Register α 8 × Register α 8 :=
  let indices : Vector (Fin 8) 8 := #v[0, 2, 4, 6, 1, 3, 5, 7]
  let lo := permute lo indices
  let hi := permute hi indices
  (lowHalves lo hi, highHalves lo hi)

/-- Put first and second members together again as pairs in two registers. -/
def interleave (x y : Register α 8) : Register α 8 × Register α 8 :=
  let indices : Vector (Fin 8) 8 := #v[0, 4, 1, 5, 2, 6, 3, 7]
  (permute (lowHalves x y) indices, permute (highHalves x y) indices)

/-! ### Stores of selected lanes -/

/-- Store the selected lanes to their own slots. -/
def maskedStore (mem : Array α) (pos : Nat) (mask : Mask 8) (reg : Register α 8) :
    Array α :=
  writeSelected mem pos (taggedLanes mask reg)

/-- Store the selected lanes next to each other from `pos` on. -/
def compressStore (mem : Array α) (pos : Nat) (mask : Mask 8) (reg : Register α 8) :
    Compacted α :=
  let bits := maskBits mask
  -- under the complement of its bits, a mask's selected lanes are the clear ones
  let selectedFirst := permute reg (compactingRow (bits ^^^ 0xff))
  ⟨maskedStore mem pos (firstLanes (popcount bits)) selectedFirst, popcount bits⟩

/-- Store the unselected lanes to the front of the slots at `left` and the selected ones to the back
of the slots at `right`, each group in lane order. -/
def splitStore (mem : Array α) (left right : Nat) (mask : Mask 8) (reg : Register α 8) :
    Compacted α :=
  let bits := maskBits mask
  let compacted := permute reg (compactingRow bits)
  let front := firstLanes (8 - popcount bits)
  ⟨maskedStore (maskedStore mem left front compacted) right (complement front) compacted,
    popcount bits⟩

@[simp] theorem size_splitStore (mem : Array α) (left right : Nat) (mask : Mask 8)
    (reg : Register α 8) : (splitStore mem left right mask reg).mem.size = mem.size := by
  simp [splitStore, maskedStore]

variable [Element α]

/-! ### Comparisons and extremes -/

/-- The lanes in which `a > b`. -/
def above (a b : Register α 8) : Mask 8 := Vector.zipWith (fun x y => Element.lt y x) a b

/-- The lanes in which `a ≥ b`. -/
def atLeast (a b : Register α 8) : Mask 8 :=
  if (Element.kind α).isInteger then complement (above b a)
  else Vector.zipWith (fun x y => Element.le y x) a b

/-- The smaller element of each lane. -/
def lanewiseMin (a b : Register α 8) : Register α 8 := Vector.zipWith Element.laneMin a b

/-- The larger element of each lane. -/
def lanewiseMax (a b : Register α 8) : Register α 8 := Vector.zipWith Element.laneMax a b

/-- Combine all lanes by halving: lanes four apart, then two apart, then the last two. -/
def reduce (combine : α → α → α) (reg : Register α 8) : α :=
  let quarter (lane : Fin 2) : α :=
    combine (combine reg[lane.val] reg[lane.val + 4]) (combine reg[lane.val + 2] reg[lane.val + 6])
  combine (quarter 0) (quarter 1)

/-! ### Loads of selected lanes -/

/-- Load the selected lanes from their own slots and fill the others with zeros. -/
def loadOrZero (mem : Array α) (pos : Nat) (mask : Mask 8) : Register α 8 :=
  Vector.ofFn fun lane => if mask[lane] then peek mem (pos + lane) else Element.zero

/-- Load the selected lanes from their own slots and keep the others. -/
def maskedLoad (existing : Register α 8) (mask : Mask 8) (mem : Array α) (pos : Nat) :
    Register α 8 :=
  blend existing (loadOrZero mem pos mask) mask

/-! ### Exchanges -/

/-- Put `count` neighbouring pairs in order, from `pos` on, at most one pair per lane. -/
def exchangePairs (mem : Array α) (pos count : Nat) : Array α :=
  let loMask := firstLanes (2 * count)
  let hiMask := firstLanes (2 * count - 8)
  -- a register that holds no pair is neither read nor written
  let (a, b) := deinterleave (loadOrZero mem pos loMask) (loadOrZero mem (pos + 8) hiMask)
  let inOrder := above b a
  let (lo, hi) := interleave (blend b a inOrder) (blend a b inOrder)
  maskedStore (maskedStore mem pos loMask lo) (pos + 8) hiMask hi

@[simp] theorem size_exchangePairs (mem : Array α) (pos count : Nat) :
    (exchangePairs mem pos count).size = mem.size := by
  simp [exchangePairs, maskedStore]

end VectorizedSort.Shuffle
