import VectorizedSort.Element.Kind

/-! # Elements

An element is a 32-bit word together with a place in its kind's order. The order is given by an
integer key: elements compare as their keys do, and an element without a key (a NaN) answers no to
every comparison. Elements with one key compare equal although their words may differ, as the two
zeros of a float kind do.

Signed integers in two's complement are elements with their value as key, so all of them are ordered
and no two different ones compare equal. -/

namespace VectorizedSort

/-- The types whose values can be compared, moved and sorted. -/
class Element (α : Type) where
  /-- The kind that names this type. -/
  kind : Kind
  /-- The place of an element in the order, or nothing for an unordered element. -/
  key : α → Option Int
  /-- What an empty lane holds. -/
  zero : α
  /-- The smallest element, the seed of a running maximum. -/
  least : α
  /-- The largest element, the seed of a running minimum. -/
  greatest : α
  /-- The word that stores an element. -/
  toWord : α → UInt32
  /-- The element that a word stores. -/
  ofWord : UInt32 → α
  /-- The least element is ordered, and nothing ordered stands below it. -/
  key_least : ∃ i, key least = some i ∧ ∀ x j, key x = some j → i ≤ j
  /-- The greatest element is ordered, and nothing ordered stands above it. -/
  key_greatest : ∃ i, key greatest = some i ∧ ∀ x j, key x = some j → j ≤ i
  /-- Every element of an integer kind is ordered. -/
  isSome_key : kind.isInteger = true → ∀ x, (key x).isSome = true
  /-- Storing and reading back loses nothing. -/
  ofWord_toWord : ∀ x, ofWord (toWord x) = x
  /-- Every word is the word of the element it stores. -/
  toWord_ofWord : ∀ w, toWord (ofWord w) = w

namespace Element

variable {α : Type} [Element α]

/-- Whether an element has a place in the order. A NaN has none. -/
def isOrdered (a : α) : Bool := (key a).isSome

/-- `a < b`, false as soon as one of the two is unordered. -/
def lt (a b : α) : Bool :=
  match key a, key b with
  | some i, some j => decide (i < j)
  | _, _ => false

/-- `a ≤ b`, false as soon as one of the two is unordered. -/
def le (a b : α) : Bool :=
  match key a, key b with
  | some i, some j => decide (i ≤ j)
  | _, _ => false

/-- `a = b` in the order, false as soon as one of the two is unordered. -/
def eqv (a b : α) : Bool :=
  match key a, key b with
  | some i, some j => decide (i = j)
  | _, _ => false

/-- The smaller of two elements, the second one unless the first is strictly smaller. -/
def laneMin (a b : α) : α := if lt a b then a else b

/-- The larger of two elements, the second one unless the first is strictly larger. -/
def laneMax (a b : α) : α := if lt b a then a else b

/-! ### Comparisons on keys -/

theorem lt_iff {a b : α} : lt a b = true ↔ ∃ i j, key a = some i ∧ key b = some j ∧ i < j := by
  unfold lt
  split
  · simp_all
  · rename_i h
    simp only [Bool.false_eq_true, false_iff, not_exists]
    rintro i j ⟨ha, hb, -⟩
    exact h i j ha hb

theorem le_iff {a b : α} : le a b = true ↔ ∃ i j, key a = some i ∧ key b = some j ∧ i ≤ j := by
  unfold le
  split
  · simp_all
  · rename_i h
    simp only [Bool.false_eq_true, false_iff, not_exists]
    rintro i j ⟨ha, hb, -⟩
    exact h i j ha hb

theorem eqv_iff {a b : α} : eqv a b = true ↔ ∃ i, key a = some i ∧ key b = some i := by
  unfold eqv
  split
  · rename_i ha hb
    simp [ha, hb, eq_comm]
  · rename_i h
    simp only [Bool.false_eq_true, false_iff, not_exists]
    rintro i ⟨ha, hb⟩
    exact h i i ha hb

end Element

/-! ### Integers -/

instance : Element Int32 where
  kind := .int32
  key x := some x.toInt
  zero := 0
  least := Int32.minValue
  greatest := Int32.maxValue
  toWord x := x.toUInt32
  ofWord w := w.toInt32
  key_least := ⟨_, rfl, fun x j h => by
    cases h
    simpa using Int32.minValue_le_toInt x⟩
  key_greatest := ⟨_, rfl, fun x j h => by
    cases h
    simpa using Int32.toInt_le x⟩
  isSome_key _ _ := rfl
  ofWord_toWord x := by simp
  toWord_ofWord w := by simp

end VectorizedSort
