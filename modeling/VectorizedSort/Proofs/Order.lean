import VectorizedSort.Element.Basic

/-! # The order of elements

On the ordered elements `le` is a total preorder with `lt` as its strict part. Everything below is
read off the integer keys; no later proof looks at a key again. -/

namespace VectorizedSort

namespace Element

variable {α : Type} [Element α] {a b c : α}

theorem isOrdered_iff : isOrdered a ↔ ∃ i, key a = some i := by
  rw [isOrdered, Option.isSome_iff_exists]

/-- Every element of an integer kind is ordered. -/
theorem isOrdered_of_isInteger (h : (kind α).isInteger) (a : α) : isOrdered a :=
  isSome_key h a

theorem isOrdered_left_of_le (h : le a b) : isOrdered a := by
  obtain ⟨i, j, ha, -, -⟩ := le_iff.mp h
  exact isOrdered_iff.mpr ⟨i, ha⟩

theorem isOrdered_right_of_le (h : le a b) : isOrdered b := by
  obtain ⟨i, j, -, hb, -⟩ := le_iff.mp h
  exact isOrdered_iff.mpr ⟨j, hb⟩

theorem le_refl (ha : isOrdered a) : le a a := by
  obtain ⟨i, hi⟩ := isOrdered_iff.mp ha
  exact le_iff.mpr ⟨i, i, hi, hi, Int.le_refl i⟩

theorem le_of_lt (h : lt a b) : le a b := by
  obtain ⟨i, j, ha, hb, hij⟩ := lt_iff.mp h
  exact le_iff.mpr ⟨i, j, ha, hb, Int.le_of_lt hij⟩

theorem isOrdered_right_of_lt (h : lt a b) : isOrdered b :=
  isOrdered_right_of_le (le_of_lt h)

theorem le_trans (hab : le a b) (hbc : le b c) : le a c := by
  obtain ⟨i, j, ha, hb, hij⟩ := le_iff.mp hab
  obtain ⟨j', k, hb', hc, hjk⟩ := le_iff.mp hbc
  rw [hb] at hb'
  cases hb'
  exact le_iff.mpr ⟨i, k, ha, hc, Int.le_trans hij hjk⟩

/-- Of two ordered elements, one is at most the other unless it is strictly above it. -/
theorem not_lt_iff_le (ha : isOrdered a) (hb : isOrdered b) : ¬ lt a b ↔ le b a := by
  obtain ⟨i, hi⟩ := isOrdered_iff.mp ha
  obtain ⟨j, hj⟩ := isOrdered_iff.mp hb
  rw [lt_iff, le_iff]
  constructor
  · intro h
    refine ⟨j, i, hj, hi, Int.not_lt.mp fun hij => ?_⟩
    exact h ⟨i, j, hi, hj, hij⟩
  · rintro ⟨j', i', hj', hi', hji⟩ ⟨i'', j'', hi'', hj'', hij⟩
    rw [hi] at hi' hi''
    rw [hj] at hj' hj''
    cases hi'; cases hi''; cases hj'; cases hj''
    exact absurd hij (Int.not_lt.mpr hji)

/-- The complement of `lt` the other way round, on ordered elements. -/
theorem not_le_iff_lt (ha : isOrdered a) (hb : isOrdered b) : ¬ le a b ↔ lt b a := by
  rw [← not_lt_iff_le hb ha, Classical.not_not]

theorem not_le_of_lt (h : lt a b) : ¬ le b a :=
  (not_le_iff_lt (isOrdered_right_of_lt h) (isOrdered_left_of_le (le_of_lt h))).mpr h

/-- Elements compare equal if each is at most the other. -/
theorem eqv_iff_le_le : eqv a b ↔ le a b ∧ le b a := by
  rw [eqv_iff]
  constructor
  · rintro ⟨i, ha, hb⟩
    exact ⟨le_iff.mpr ⟨i, i, ha, hb, Int.le_refl i⟩, le_iff.mpr ⟨i, i, hb, ha, Int.le_refl i⟩⟩
  · rintro ⟨hab, hba⟩
    obtain ⟨i, j, ha, hb, hij⟩ := le_iff.mp hab
    obtain ⟨j', i', hb', ha', hji⟩ := le_iff.mp hba
    rw [ha] at ha'
    rw [hb] at hb'
    cases ha'; cases hb'
    exact ⟨i, ha, by rw [hb, Int.le_antisymm hij hji]⟩

theorem eqv_of_le_of_not_lt (hle : le a b) (hnot : ¬ lt a b) : eqv a b :=
  eqv_iff_le_le.mpr
    ⟨hle, (not_lt_iff_le (isOrdered_left_of_le hle) (isOrdered_right_of_le hle)).mp hnot⟩

/-- The seed of a running minimum is ordered. -/
theorem isOrdered_greatest : isOrdered (greatest : α) := by
  obtain ⟨i, hi, -⟩ := key_greatest (α := α)
  exact isOrdered_iff.mpr ⟨i, hi⟩

/-- The seed of a running maximum is ordered. -/
theorem isOrdered_least : isOrdered (least : α) := by
  obtain ⟨i, hi, -⟩ := key_least (α := α)
  exact isOrdered_iff.mpr ⟨i, hi⟩

theorem le_greatest (ha : isOrdered a) : le a greatest := by
  obtain ⟨i, hi, hmax⟩ := key_greatest (α := α)
  obtain ⟨j, hj⟩ := isOrdered_iff.mp ha
  exact le_iff.mpr ⟨j, i, hj, hi, hmax a j hj⟩

theorem least_le (ha : isOrdered a) : le least a := by
  obtain ⟨i, hi, hmin⟩ := key_least (α := α)
  obtain ⟨j, hj⟩ := isOrdered_iff.mp ha
  exact le_iff.mpr ⟨i, j, hi, hj, hmin a j hj⟩

end Element

/-! ### Arrays in order -/

variable {α : Type} [Element α]

/-- No element of the array is a NaN. -/
def AllOrdered (v : Array α) : Prop := ∀ x ∈ v, Element.isOrdered x

/-- Every element is at most the one behind it. -/
def Nondecreasing (v : Array α) : Prop :=
  ∀ (i : Nat) (h : i + 1 < v.size), Element.le v[i] v[i + 1]

/-- An array of ordered elements stays one when its elements change places. -/
theorem AllOrdered.of_perm {v w : Array α} (hv : AllOrdered v) (h : w.Perm v) : AllOrdered w :=
  fun x hx => hv x (h.mem_iff.mp hx)

theorem AllOrdered.getElem {v : Array α} (hv : AllOrdered v) {i : Nat} (h : i < v.size) :
    Element.isOrdered v[i] :=
  hv _ (Array.getElem_mem h)

section Slots

variable {n : Nat} {v w : Vector α n}

/-- The slots of an array of known length hold ordered elements too. -/
theorem AllOrdered.getElem_slot (hv : AllOrdered v.toArray) {i : Nat} (h : i < n) :
    Element.isOrdered v[i] :=
  hv _ (Vector.getElem_mem h).val

theorem AllOrdered.of_perm_slots (hv : AllOrdered v.toArray) (h : w.Perm v) :
    AllOrdered w.toArray :=
  hv.of_perm (Vector.perm_iff_toArray_perm.mp h)

end Slots

end VectorizedSort
