import VectorizedSort.Proofs.Order
import VectorizedSort.Sort.Insertion

/-! # Insertion sort sorts

Filling a hole shifts the elements that the inserted one is below and nothing else. Inserting
therefore only rearranges, with or without unordered elements, and keeps the ordered prefix of an
array of ordered elements in order. -/

namespace VectorizedSort

open Element

variable {α : Type} [Element α] {n : Nat}

/-! ### Filling a hole -/

/-- The hole has moved from `hole` to `stop` and was filled there with `x`: the elements between
have moved up by one slot, and all others are as before. The hole has passed only elements that `x`
is below, and the element that stopped it is not one of them. -/
structure Filled (x : α) (hole stop : Nat) (v w : Vector α n) : Prop where
  stop_le : stop ≤ hole
  below : ∀ (k : Nat) (_ : k < n), k < stop → w[k] = v[k]
  filled : ∀ (_ : stop < n), w[stop] = x
  moved : ∀ (k : Nat) (_ : k + 1 < n), stop ≤ k → k < hole → w[k + 1] = v[k]
  above : ∀ (k : Nat) (_ : k < n), hole < k → w[k] = v[k]
  passed : ∀ (k : Nat) (_ : k < n), stop ≤ k → k < hole → lt x v[k]
  stopped : ∀ (k : Nat) (_ : k < n), k + 1 = stop → ¬ lt x v[k]

/-- A hole that stays where it is. -/
theorem Filled.stay {x : α} {hole : Nat} {v : Vector α n} (h : hole < n)
    (hstop : ∀ (k : Nat) (_ : k < n), k + 1 = hole → ¬ lt x v[k]) :
    Filled x hole hole v (v.set hole x) where
  stop_le := Nat.le_refl hole
  below k hk hlt := Vector.getElem_set_ne h hk (by omega)
  filled _ := Vector.getElem_set_self h
  moved k _ hle hlt := absurd hlt (Nat.not_lt_of_le hle)
  above k hk hlt := Vector.getElem_set_ne h hk (by omega)
  passed k _ hle hlt := absurd hlt (Nat.not_lt_of_le hle)
  stopped := hstop

/-- A hole that moves one slot to the left first. -/
theorem Filled.pass {x : α} {hole stop : Nat} {v w : Vector α n} (hhole : hole < n)
    (h : hole + 1 < n) (hlt : lt x v[hole])
    (hfilled : Filled x hole stop (v.set (hole + 1) v[hole]) w) :
    Filled x (hole + 1) stop v w := by
  obtain ⟨hle, hbelow, hat, hmoved, habove, hpassed, hstopped⟩ := hfilled
  have hset (k : Nat) (hk : k < n) (hne : k ≤ hole) : (v.set (hole + 1) v[hole])[k] = v[k] :=
    Vector.getElem_set_ne h hk (by omega)
  constructor
  case stop_le => exact Nat.le_succ_of_le hle
  case below =>
    intro k hk hlt
    rw [hbelow k hk hlt, hset k hk (by omega)]
  case filled => exact hat
  case moved =>
    intro k hk hge hlt
    -- the first slot passed has moved before, the others move in the rest of the run
    rcases Nat.lt_succ_iff_lt_or_eq.mp hlt with hin | rfl
    · rw [hmoved k hk hge hin, hset k (by omega) (by omega)]
    · rw [habove (k + 1) hk (Nat.lt_succ_self k), Vector.getElem_set_self]
  case above =>
    intro k hk hlt
    rw [habove k hk (by omega), Vector.getElem_set_ne h hk (by omega)]
  case passed =>
    intro k hk hge hin
    rcases Nat.lt_succ_iff_lt_or_eq.mp hin with hin | rfl
    · have hpass := hpassed k hk hge hin
      rwa [hset k hk (by omega)] at hpass
    · exact hlt
  case stopped =>
    intro k hk heq
    have hstop := hstopped k hk heq
    rwa [hset k hk (by omega)] at hstop

theorem fillHole_filled (x : α) (hole : Nat) (v : Vector α n) (h : hole < n) :
    ∃ stop, Filled x hole stop v (fillHole x hole v h) := by
  induction hole generalizing v with
  | zero => exact ⟨0, .stay h fun k _ heq => absurd heq (Nat.succ_ne_zero k)⟩
  | succ j ih =>
    rw [fillHole]
    split
    · obtain ⟨stop, hstop⟩ := ih (v.set (j + 1) v[j]) (by omega)
      exact ⟨stop, hstop.pass (Nat.lt_of_succ_lt h) h ‹_›⟩
    · refine ⟨j + 1, .stay h fun k _ heq => ?_⟩
      cases heq
      assumption

omit [Element α] in
/-- Moving the hole down one slot exchanges what is to fill it with the element it passes. -/
theorem set_set_eq_swap (x : α) (v : Vector α n) {j : Nat} (hj : j < n) (h : j + 1 < n) :
    (v.set (j + 1) v[j]).set j x = (v.set (j + 1) x).swap j (j + 1) := by
  apply Vector.ext
  intro k hk
  rw [Vector.getElem_swap, Vector.getElem_set, Vector.getElem_set, Vector.getElem_set,
    Vector.getElem_set, Vector.getElem_set]
  grind

/-- The filled array is a rearrangement of the array with `x` written to the hole. -/
theorem fillHole_perm (x : α) (hole : Nat) (v : Vector α n) (h : hole < n) :
    (fillHole x hole v h).Perm (v.set hole x) := by
  induction hole generalizing v with
  | zero => exact .rfl
  | succ j ih =>
    rw [fillHole]
    split
    · refine (ih (v.set (j + 1) v[j]) (by omega)).trans ?_
      rw [set_set_eq_swap x v (Nat.lt_of_succ_lt h) h]
      exact Vector.swap_perm _ _
    · exact .rfl

/-! ### Inserting one element after another -/

theorem insertFrom_perm (v : Vector α n) (i : Nat) : (insertFrom v i).Perm v := by
  fun_induction insertFrom v i with
  | case1 v i h ih =>
    have hfill := fillHole_perm v[i] i v h
    rw [Vector.set_getElem_self] at hfill
    exact ih.trans hfill
  | case2 v i h => exact .rfl

/-- The first `i` elements are in order. -/
def SortedUpTo (v : Vector α n) (i : Nat) : Prop :=
  ∀ (a b : Nat) (_ : a < n) (_ : b < n), a < b → b < i → le v[a] v[b]

/-- Inserting an element into a prefix in order leaves a longer prefix in order. -/
theorem Filled.sortedUpTo {v w : Vector α n} {i stop : Nat} (hi : i < n)
    (hv : AllOrdered v.toArray) (h : Filled v[i] i stop v w) (hsorted : SortedUpTo v i) :
    SortedUpTo w (i + 1) := by
  obtain ⟨hle, hbelow, hat, hmoved, -, hpassed, hstopped⟩ := h
  have hordered (k : Nat) (hk : k < n) : isOrdered v[k] := hv.getElem_slot hk
  have hleft (k : Nat) (hk : k < n) (hlt : k < stop) : le v[k] v[i] := by
    have hlast := (not_lt_iff_le (hordered i hi) (hordered (stop - 1) (by omega))).mp
      (hstopped (stop - 1) (by omega) (by omega))
    rcases Nat.lt_or_eq_of_le (Nat.le_sub_one_of_lt hlt) with hbefore | rfl
    · exact le_trans (hsorted k (stop - 1) hk (by omega) hbefore (by omega)) hlast
    · exact hlast
  have hright (k : Nat) (hk : k < n) (hge : stop ≤ k) (hlt : k < i) : le v[i] v[k] :=
    le_of_lt (hpassed k hk hge hlt)
  intro a b ha hb hab hbi
  -- both slots are before, at or behind the place where the element was inserted
  rcases Nat.lt_trichotomy b stop with hb_lt | rfl | hb_gt
  · rw [hbelow a ha (by omega), hbelow b hb hb_lt]
    exact hsorted a b ha hb hab (by omega)
  · rw [hbelow a ha hab, hat hb]
    exact hleft a ha hab
  · obtain ⟨b, rfl⟩ : ∃ k, b = k + 1 := ⟨b - 1, by omega⟩
    rw [hmoved b hb (by omega) (by omega)]
    rcases Nat.lt_trichotomy a stop with ha_lt | rfl | ha_gt
    · rw [hbelow a ha ha_lt]
      exact hsorted a b ha (by omega) (by omega) (by omega)
    · rw [hat ha]
      exact hright b (by omega) (by omega) (by omega)
    · obtain ⟨a, rfl⟩ : ∃ k, a = k + 1 := ⟨a - 1, by omega⟩
      rw [hmoved a ha (by omega) (by omega)]
      exact hsorted a b (by omega) (by omega) (by omega) (by omega)

theorem insertFrom_sorted (v : Vector α n) (i : Nat) (hv : AllOrdered v.toArray)
    (hsorted : SortedUpTo v i) : SortedUpTo (insertFrom v i) n := by
  fun_induction insertFrom v i with
  | case1 v i h ih =>
    obtain ⟨stop, hstop⟩ := fillHole_filled v[i] i v h
    have hfill := fillHole_perm v[i] i v h
    rw [Vector.set_getElem_self] at hfill
    exact ih (hv.of_perm_slots hfill) (hstop.sortedUpTo h hv hsorted)
  | case2 v i h =>
    intro a b ha hb hab _
    exact hsorted a b ha hb hab (by omega)

/-! ### The sort -/

/-- With a valid offset, whatever the elements are, the sort answers with a rearrangement. -/
theorem insertionSort_perm {v : Array α} {offset : Nat} (hpos : offset ≠ 0)
    (hle : offset ≤ v.size) : ∃ w, insertionSort v offset = .ok w ∧ w.Perm v := by
  rw [insertionSort, if_pos ⟨hpos, hle⟩]
  exact ⟨_, rfl, Vector.perm_iff_toArray_perm.mp (insertFrom_perm v.toVector offset)⟩

/-- An array of ordered elements is sorted from its first element on. -/
theorem nondecreasing_insertionSort {v w : Array α} (hv : AllOrdered v)
    (h : insertionSort v 1 = .ok w) : Nondecreasing w := by
  have hsorted := insertFrom_sorted v.toVector 1 hv fun a b _ _ hab hb => by omega
  rw [insertionSort] at h
  split at h
  · cases h
    intro i hi
    have hi' : i + 1 < v.size := by rwa [Vector.size_toArray] at hi
    exact hsorted i (i + 1) (by omega) hi' (Nat.lt_succ_self i) hi'
  · cases h

end VectorizedSort
