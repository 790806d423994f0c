import VectorizedSort.Register.Basic

/-! # Register operations by scalar code

Every operation walks the lanes in order, for registers of any width. The two compacting stores
move a write cursor over the memory: one cursor for the selected lanes alone, or one for each of
the two groups of lanes. -/

namespace VectorizedSort.Scalar

variable {α : Type} {width : Nat}

/-! ### Masks -/

/-- The lanes that a mask leaves out. -/
def complement (mask : Mask width) : Mask width := mask.map (!·)

/-- The mask of the first `n` lanes, of all lanes if there are fewer. -/
def firstLanes (width n : Nat) : Mask width := Vector.ofFn fun lane => decide (lane.val < n)

/-- The number of selected lanes. -/
def count (mask : Mask width) : Nat := mask.toList.countP id

/-! ### Stores of selected lanes -/

/-- Store the selected lanes to their own slots. -/
def maskedStore (mem : Array α) (pos : Nat) (mask : Mask width) (reg : Register α width) :
    Array α :=
  writeSelected mem pos (taggedLanes mask reg)

/-- Write the selected elements of a list next to each other, `written` of them being there. -/
def pack (mem : Array α) (pos written : Nat) : List (Bool × α) → Compacted α
  | [] => ⟨mem, written⟩
  | (true, x) :: rest => pack (mem.setIfInBounds (pos + written) x) pos (written + 1) rest
  | (false, _) :: rest => pack mem pos written rest

/-- Store the selected lanes next to each other from `pos` on. -/
def compressStore (mem : Array α) (pos : Nat) (mask : Mask width) (reg : Register α width) :
    Compacted α :=
  pack mem pos 0 (taggedLanes mask reg)

/-- Write the unselected elements of a list from `left` on and the selected ones from `right` on. -/
def deal (mem : Array α) (left right : Nat) : List (Bool × α) → Array α
  | [] => mem
  | (true, x) :: rest => deal (mem.setIfInBounds right x) left (right + 1) rest
  | (false, x) :: rest => deal (mem.setIfInBounds left x) (left + 1) right rest

/-- Store the unselected lanes to the front of the slots at `left` and the selected ones to the back
of the slots at `right`, each group in lane order. -/
def splitStore (mem : Array α) (left right : Nat) (mask : Mask width) (reg : Register α width) :
    Compacted α :=
  ⟨deal mem left (right + (width - count mask)) (taggedLanes mask reg), count mask⟩

@[simp] theorem size_deal (mem : Array α) (left right : Nat) (lanes : List (Bool × α)) :
    (deal mem left right lanes).size = mem.size := by
  fun_induction deal mem left right lanes <;> simp_all

variable [Element α]

/-! ### Comparisons and extremes -/

/-- The lanes in which `a ≥ b`. -/
def atLeast (a b : Register α width) : Mask width := Vector.zipWith (fun x y => Element.le y x) a b

/-- The lanes in which `a > b`. -/
def above (a b : Register α width) : Mask width := Vector.zipWith (fun x y => Element.lt y x) a b

/-- The smaller element of each lane. -/
def lanewiseMin (a b : Register α width) : Register α width := Vector.zipWith Element.laneMin a b

/-- The larger element of each lane. -/
def lanewiseMax (a b : Register α width) : Register α width := Vector.zipWith Element.laneMax a b

/-- Combine all lanes from the first one on, each further lane as the left operand. -/
def reduce (combine : α → α → α) (reg : Register α width) (h : 0 < width) : α :=
  (reg.toList.drop 1).foldl (fun acc x => combine x acc) reg[0]

/-! ### Loads of selected lanes -/

/-- Load the selected lanes from their own slots and keep the others. -/
def maskedLoad (existing : Register α width) (mask : Mask width) (mem : Array α) (pos : Nat) :
    Register α width :=
  Vector.ofFn fun lane => if mask[lane] then peek mem (pos + lane) else existing[lane]

/-! ### Exchanges -/

/-- Put two neighbouring elements in order: they stay if the first is strictly smaller and change
places otherwise. -/
def exchangePair (mem : Array α) (pos : Nat) : Array α :=
  let a := peek mem pos
  let b := peek mem (pos + 1)
  -- both slots follow one comparison, so no element is lost when it is undecided
  let inOrder := Element.lt a b
  (mem.setIfInBounds pos (if inOrder then a else b)).setIfInBounds (pos + 1)
    (if inOrder then b else a)

/-- Put `count` neighbouring pairs in order, from `pos` on. -/
def exchangePairs (mem : Array α) (pos : Nat) : (count : Nat) → Array α
  | 0 => mem
  | count + 1 => exchangePairs (exchangePair mem pos) (pos + 2) count

@[simp] theorem size_exchangePairs (mem : Array α) (pos count : Nat) :
    (exchangePairs mem pos count).size = mem.size := by
  induction count generalizing mem pos with
  | zero => rfl
  | succ n ih => simp [exchangePairs, exchangePair, ih]

end VectorizedSort.Scalar
