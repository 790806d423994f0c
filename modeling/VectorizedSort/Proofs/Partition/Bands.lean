import Mathlib.Data.List.FinRange
import VectorizedSort.Partition.Bands
import VectorizedSort.Proofs.Partition.Range

/-! # The bands of a partition

Both partitions into bands are made of passes over slices. A pass over a slice splits the contents
of the slice at its boundary and leaves the rest of the array alone. Around two pivots, the
exchanges that park the pivots and put them back only move whole groups of elements by one slot. -/

namespace VectorizedSort

variable {α : Type}

/-! ### Parking two pivots -/

/-- The elements at all positions but two. -/
def others (v : Array α) (i j : Nat) : Multiset α :=
  ((List.finRange v.size).filter fun k => k.val ≠ i ∧ k.val ≠ j).map fun k => v[k]

/-- Two elements and the others make up the array. -/
theorem cons_cons_others {v : Array α} {i j : Nat} (hi : i < v.size) (hj : j < v.size)
    (hij : i ≠ j) : v[i] ::ₘ v[j] ::ₘ others v i j = (v.toList : Multiset α) := by
  have hpositions : ((⟨i, hi⟩ : Fin v.size) :: ⟨j, hj⟩ ::
      (List.finRange v.size).filter fun k => k.val ≠ i ∧ k.val ≠ j).Perm
      (List.finRange v.size) := by
    rw [List.perm_ext_iff_of_nodup _ (List.nodup_finRange v.size)]
    · -- every position is one of the two or neither
      intro k
      simp only [List.mem_cons, List.mem_filter, List.mem_finRange, Fin.ext_iff, true_and,
        decide_eq_true_eq, iff_true]
      omega
    · have hrest := (List.nodup_finRange v.size).filter fun k => k.val ≠ i ∧ k.val ≠ j
      rw [List.nodup_cons, List.nodup_cons]
      exact ⟨by simp [hij], by simp, hrest⟩
  have hvalues := hpositions.map fun k => v[k]
  have hall : (List.finRange v.size).map (fun k => v[k]) = v.toList := by
    apply List.ext_getElem
    · simp
    · simp
  rw [hall] at hvalues
  exact Multiset.coe_eq_coe.mpr hvalues

/-- The array with two of its elements exchanged to its ends. -/
def parkPivots (v : Array α) (i j : Nat) : Array α :=
  (v.swapIfInBounds i 0).swapIfInBounds (if j = 0 then i else j) (v.size - 1)

/-- One pivot stands in the first slot, the other one in the last slot, and the given elements
between them. -/
structure Parked (a b : α) (between : Multiset α) (v : Array α) : Prop where
  one_lt_size : 1 < v.size
  first : v[0]? = some a
  last : v[v.size - 1]? = some b
  between : contents v 1 (v.size - 1) = between

/-- Between parked pivots stand the elements that are no pivots. -/
theorem Parked.between_eq {v w : Array α} {i j : Nat} {between : Multiset α} (hi : i < v.size)
    (hj : j < v.size) (hij : i ≠ j) (hperm : w.Perm v) (h : Parked v[i] v[j] between w) :
    between = others v i j := by
  obtain ⟨hsize, hfirst, hlast, hbetween⟩ := h
  obtain ⟨h0, hfirst⟩ := Array.getElem?_eq_some_iff.mp hfirst
  obtain ⟨h1, hlast⟩ := Array.getElem?_eq_some_iff.mp hlast
  have hend : w.size - 1 + 1 = w.size := by omega
  have hall : (w.toList : Multiset α) = v[i] ::ₘ v[j] ::ₘ between := by
    rw [← contents_full, ← contents_add_contents w (Nat.zero_le 1) (Nat.le_of_lt hsize),
      ← contents_add_contents w (Nat.le_sub_one_of_lt hsize) (Nat.sub_le w.size 1),
      contents_succ w h0, hfirst, hbetween]
    have hone := contents_succ w h1
    rw [hend] at hone
    rw [hone, hlast, Multiset.singleton_add, ← Multiset.singleton_add v[j], add_comm between]
  rw [perm_iff_coe_eq.mp hperm, ← cons_cons_others hi hj hij] at hall
  exact ((Multiset.cons_inj_right _).mp ((Multiset.cons_inj_right _).mp hall)).symm

theorem parkPivots_perm (v : Array α) (i j : Nat) : (parkPivots v i j).Perm v :=
  (swapIfInBounds_perm _ _ _).trans (swapIfInBounds_perm v i 0)

@[simp] theorem size_parkPivots (v : Array α) (i j : Nat) :
    (parkPivots v i j).size = v.size := (parkPivots_perm v i j).size_eq

/-- Both slots of the second exchange lie inside the array that the first one leaves. -/
theorem parked_slots_lt {v : Array α} {i j : Nat} (hi : i < v.size) (hj : j < v.size) :
    (if j = 0 then i else j) < (v.swapIfInBounds i 0).size ∧
      v.size - 1 < (v.swapIfInBounds i 0).size := by
  rw [Array.size_swapIfInBounds]
  refine ⟨?_, by omega⟩
  split
  · exact hi
  · exact hj

/-- Wherever the two pivots stand, also in each other's parking slots, parking them works. -/
theorem parkPivots_parked {v : Array α} {i j : Nat} (hi : i < v.size) (hj : j < v.size)
    (hij : i ≠ j) : Parked v[i] v[j] (others v i j) (parkPivots v i j) := by
  have hfrom : (if j = 0 then i else j) ≠ 0 := by
    split
    · omega
    · assumption
  obtain ⟨hfrom_lt, hlast_lt⟩ := parked_slots_lt hi hj
  have hget := getElem?_swapIfInBounds hi (Nat.zero_lt_of_lt hi)
  have hpark := getElem?_swapIfInBounds hfrom_lt hlast_lt
  -- the second exchange starts where the first one left the second pivot, never in the first slot
  have hfirst : (parkPivots v i j)[0]? = some v[i] := by
    rw [parkPivots, hpark, if_neg (by omega), if_neg hfrom, hget, if_pos rfl]
  have hlast : (parkPivots v i j)[(parkPivots v i j).size - 1]? = some v[j] := by
    rw [size_parkPivots, parkPivots, hpark, if_pos rfl, ← Array.getElem?_eq_getElem, hget,
      if_neg (Ne.symm hfrom)]
    split
    · subst j
      rw [if_pos rfl]
    · exact Array.getElem?_eq_getElem hj
  have hparked : Parked v[i] v[j]
      (contents (parkPivots v i j) 1 ((parkPivots v i j).size - 1)) (parkPivots v i j) :=
    ⟨by rw [size_parkPivots]; omega, hfirst, hlast, rfl⟩
  rwa [hparked.between_eq hi hj hij (parkPivots_perm v i j)] at hparked

variable [Element α]

/-! ### A pass over a slice -/

section Slice

variable (lanes : Lanes) (test : Test) (pivot : α) {v : Array α} {lo hi : Nat}

/-- The array in which the elements of `[lo, hi)` have been partitioned. -/
def partitionInside (v : Array α) (lo hi : Nat) : Array α :=
  splice v lo (partitionPass lanes test (slice v lo hi) pivot).items

/-- The position in the array where the passing elements of `[lo, hi)` start. -/
def boundaryInside (v : Array α) (lo hi : Nat) : Nat :=
  lo + (partitionPass lanes test (slice v lo hi) pivot).boundary

theorem size_partitionInside (v : Array α) (lo hi : Nat) :
    (partitionInside lanes test pivot v lo hi).size = v.size := size_splice ..

theorem le_boundaryInside (v : Array α) (lo hi : Nat) :
    lo ≤ boundaryInside lanes test pivot v lo hi := Nat.le_add_right ..

variable (hlo : lo ≤ hi) (hhi : hi ≤ v.size)

include hhi in
variable (lo) in
theorem size_items_partitionPass_slice :
    (partitionPass lanes test (slice v lo hi) pivot).items.size = hi - lo := by
  rw [(partitionPass_sound lanes test (slice v lo hi) pivot).perm.size_eq, size_slice v hhi]

include hlo hhi

theorem boundaryInside_le : boundaryInside lanes test pivot v lo hi ≤ hi := by
  have hle := (partitionPass_sound lanes test (slice v lo hi) pivot).boundary_le
  rw [size_items_partitionPass_slice lanes test pivot lo hhi] at hle
  rw [boundaryInside]
  omega

theorem partitionInside_perm : (partitionInside lanes test pivot v lo hi).Perm v :=
  splice_perm hlo hhi (partitionPass_sound lanes test (slice v lo hi) pivot).perm

/-- Part of the partitioned slice, read off the partition. -/
theorem contents_partitionInside (a : Nat) {b : Nat} (hb : lo + b ≤ hi) :
    contents (partitionInside lanes test pivot v lo hi) (lo + a) (lo + b) =
      contents (partitionPass lanes test (slice v lo hi) pivot).items a b := by
  have hsize := size_items_partitionPass_slice lanes test pivot lo hhi
  exact contents_splice_inside (by omega) (by omega)

/-- The failing elements of the slice stand before the boundary. -/
theorem contents_partitionInside_failing :
    contents (partitionInside lanes test pivot v lo hi) lo
        (boundaryInside lanes test pivot v lo hi) =
      (contents v lo hi).filter fun x => ¬ test.passes x pivot := by
  have hsound := partitionPass_sound lanes test (slice v lo hi) pivot
  have hle := boundaryInside_le lanes test pivot hlo hhi
  have hinside := contents_partitionInside lanes test pivot hlo hhi 0 hle
  rw [Nat.add_zero] at hinside
  rw [boundaryInside, hinside, hsound.separated.contents_left hsound.boundary_le, contents,
    perm_iff_coe_eq.mp hsound.perm]

/-- The passing elements of the slice stand from the boundary on. -/
theorem contents_partitionInside_passing :
    contents (partitionInside lanes test pivot v lo hi)
        (boundaryInside lanes test pivot v lo hi) hi =
      (contents v lo hi).filter fun x => test.passes x pivot := by
  have hsound := partitionPass_sound lanes test (slice v lo hi) pivot
  have hsize := size_items_partitionPass_slice lanes test pivot lo hhi
  have hend : lo + (partitionPass lanes test (slice v lo hi) pivot).items.size = hi := by
    omega
  have hinside := contents_partitionInside lanes test pivot hlo hhi
    (partitionPass lanes test (slice v lo hi) pivot).boundary (Nat.le_of_eq hend)
  rw [hend] at hinside
  rw [boundaryInside, hinside, hsound.separated.contents_right hsound.boundary_le, contents,
    perm_iff_coe_eq.mp hsound.perm]

/-- Everything outside of the slice is as before. -/
theorem getElem?_partitionInside {k : Nat} (hk : k < lo ∨ hi ≤ k) :
    (partitionInside lanes test pivot v lo hi)[k]? = v[k]? := by
  have hsize := size_items_partitionPass_slice lanes test pivot lo hhi
  rw [partitionInside, getElem?_splice, if_neg (by omega)]

/-- So are the contents of a range outside of the slice. -/
theorem contents_partitionInside_of_disjoint {a b : Nat} (h : b ≤ lo ∨ hi ≤ a) :
    contents (partitionInside lanes test pivot v lo hi) a b = contents v a b :=
  contents_congr fun _ ha hb => getElem?_partitionInside lanes test pivot hlo hhi (by omega)

end Slice

/-! ### One pivot -/

/-- The second pass partitions what the first one found to be at least the pivot. -/
theorem singlePivot_eq (lanes : Lanes) (v : Array α) (index : Nat) (h : index < v.size) :
    singlePivot lanes v index h =
      let below := partitionPass lanes .atLeast v v[index]
      ⟨partitionInside lanes .above v[index] below.items below.boundary below.items.size,
        below.boundary,
        boundaryInside lanes .above v[index] below.items below.boundary below.items.size⟩ := rfl

theorem singlePivot_perm (lanes : Lanes) (v : Array α) (index : Nat) (h : index < v.size) :
    (singlePivot lanes v index h).items.Perm v := by
  have hbelow := partitionPass_sound lanes .atLeast v v[index]
  have hequal := partitionInside_perm lanes .above v[index] hbelow.boundary_le (Nat.le_refl _)
  exact hequal.trans hbelow.perm

theorem singlePivot_bounds (lanes : Lanes) (v : Array α) (index : Nat) (h : index < v.size) :
    (singlePivot lanes v index h).lower ≤ (singlePivot lanes v index h).upper ∧
      (singlePivot lanes v index h).upper ≤ v.size := by
  have hbelow := partitionPass_sound lanes .atLeast v v[index]
  have hle := boundaryInside_le lanes .above v[index] hbelow.boundary_le (Nat.le_refl _)
  exact ⟨le_boundaryInside lanes .above v[index] _ _ _, hbelow.perm.size_eq ▸ hle⟩

/-! ### Two pivots -/

/-- The second pivot stands at `upper`. Before it, behind the first pivot, stand the given elements
that are not at least the second pivot, and behind it those that are. -/
structure UpperPlaced (a b : α) (between : Multiset α) (upper : Nat) (v : Array α) : Prop where
  one_le : 1 ≤ upper
  lt_size : upper < v.size
  first : v[0]? = some a
  at_upper : v[upper]? = some b
  below : contents v 1 upper = between.filter fun x => ¬ Element.le b x
  above : contents v (upper + 1) v.size = between.filter fun x => Element.le b x

/-- Both pivots stand at the boundaries of the bands that they make of the given elements. -/
structure DualBands (a b : α) (between : Multiset α) (r : Bands α) : Prop where
  lower_lt : r.lower < r.upper
  upper_lt : r.upper < r.items.size
  at_lower : r.items[r.lower]? = some a
  at_upper : r.items[r.upper]? = some b
  first : contents r.items 0 r.lower =
    between.filter fun x => ¬ Element.le a x ∧ ¬ Element.le b x
  middle : contents r.items (r.lower + 1) r.upper =
    between.filter fun x => Element.le a x ∧ ¬ Element.le b x
  last : contents r.items (r.upper + 1) r.items.size = between.filter fun x => Element.le b x

section Stages

variable (lanes : Lanes) {a b : α} {between : Multiset α} {v : Array α}

/-- The array after the first pass, which places the second pivot. -/
def placeUpper (lanes : Lanes) (b : α) (v : Array α) : Array α :=
  (partitionInside lanes .atLeast b v 1 (v.size - 1)).swapIfInBounds (v.size - 1)
    (boundaryInside lanes .atLeast b v 1 (v.size - 1))

theorem Parked.placeUpper (h : Parked a b between v) :
    UpperPlaced a b between (boundaryInside lanes .atLeast b v 1 (v.size - 1))
      (placeUpper lanes b v) := by
  obtain ⟨hsize, hfirst, hlast, hbetween⟩ := h
  have hlo : 1 ≤ v.size - 1 := Nat.le_sub_one_of_lt hsize
  have hhi : v.size - 1 ≤ v.size := Nat.sub_le v.size 1
  have hone := le_boundaryInside lanes .atLeast b v 1 (v.size - 1)
  have hle := boundaryInside_le lanes .atLeast b hlo hhi
  have hfailing := contents_partitionInside_failing lanes .atLeast b hlo hhi
  have hpassing := contents_partitionInside_passing lanes .atLeast b hlo hhi
  have hfirst : (partitionInside lanes .atLeast b v 1 (v.size - 1))[0]? = some a := by
    rw [getElem?_partitionInside lanes .atLeast b hlo hhi (by omega), hfirst]
  have hlast : (partitionInside lanes .atLeast b v 1 (v.size - 1))[v.size - 1]? = some b := by
    rw [getElem?_partitionInside lanes .atLeast b hlo hhi (by omega), hlast]
  have hmsize := size_partitionInside lanes .atLeast b v 1 (v.size - 1)
  rw [VectorizedSort.placeUpper]
  generalize partitionInside lanes .atLeast b v 1 (v.size - 1) = m at *
  generalize boundaryInside lanes .atLeast b v 1 (v.size - 1) = upper at *
  have hend : v.size - 1 < m.size := by omega
  have hget := getElem?_swapIfInBounds hend (Nat.lt_of_le_of_lt hle hend)
  have hall : m.size = v.size - 1 + 1 := by omega
  constructor
  case one_le => exact hone
  case lt_size =>
    rw [Array.size_swapIfInBounds]
    omega
  case first => rw [hget, if_neg (by omega), if_neg (by omega), hfirst]
  case at_upper => rw [hget, if_pos rfl, ← Array.getElem?_eq_getElem, hlast]
  case below =>
    rw [contents_swapIfInBounds_of_disjoint (Or.inr hle) (Or.inr (Nat.le_refl upper)), hfailing,
      hbetween]
    rfl
  case above =>
    -- the first passing element makes room for the pivot and moves to the last slot
    rw [Array.size_swapIfInBounds, hall, contents_swapIfInBounds_last hle hend, hpassing,
      hbetween]
    rfl

/-- The second pass places the first pivot, at the last slot of the elements below it. -/
theorem UpperPlaced.placeLower {upper : Nat} (h : UpperPlaced a b between upper v) :
    DualBands a b between
      ⟨(partitionInside lanes .atLeast a v 1 upper).swapIfInBounds 0
          (boundaryInside lanes .atLeast a v 1 upper - 1),
        boundaryInside lanes .atLeast a v 1 upper - 1, upper⟩ := by
  obtain ⟨hone, hlt, hfirst, hupper, hbelow, habove⟩ := h
  have hhi : upper ≤ v.size := Nat.le_of_lt hlt
  have hone' := le_boundaryInside lanes .atLeast a v 1 upper
  have hle := boundaryInside_le lanes .atLeast a hone hhi
  have hfailing := contents_partitionInside_failing lanes .atLeast a hone hhi
  have hpassing := contents_partitionInside_passing lanes .atLeast a hone hhi
  have hbehind := contents_partitionInside_of_disjoint lanes .atLeast a hone hhi
    (b := v.size) (Or.inr (Nat.le_succ upper))
  have hfirst : (partitionInside lanes .atLeast a v 1 upper)[0]? = some a := by
    rw [getElem?_partitionInside lanes .atLeast a hone hhi (by omega), hfirst]
  have hupper : (partitionInside lanes .atLeast a v 1 upper)[upper]? = some b := by
    rw [getElem?_partitionInside lanes .atLeast a hone hhi (by omega), hupper]
  have hmsize := size_partitionInside lanes .atLeast a v 1 upper
  generalize partitionInside lanes .atLeast a v 1 upper = m at *
  generalize hboundary : boundaryInside lanes .atLeast a v 1 upper = boundary at *
  obtain ⟨lower, rfl⟩ : ∃ lower, boundary = lower + 1 := ⟨boundary - 1, by omega⟩
  rw [Nat.add_sub_cancel]
  have hlower : lower < m.size := by omega
  have hget := getElem?_swapIfInBounds (Nat.zero_lt_of_lt hlower) hlower
  constructor
  case lower_lt => exact hle
  case upper_lt =>
    show upper < (m.swapIfInBounds 0 lower).size
    rw [Array.size_swapIfInBounds]
    omega
  case at_lower => rw [hget, if_pos rfl, ← Array.getElem?_eq_getElem, hfirst]
  case at_upper =>
    show (m.swapIfInBounds 0 lower)[upper]? = some b
    rw [hget, if_neg (by omega), if_neg (by omega), hupper]
  case first =>
    -- the last failing element makes room for the pivot and moves to the first slot
    rw [contents_swapIfInBounds_first (Nat.zero_le lower) hlower, Nat.zero_add, hfailing, hbelow,
      Multiset.filter_filter]
    rfl
  case middle =>
    show contents (m.swapIfInBounds 0 lower) (lower + 1) upper = _
    rw [contents_swapIfInBounds_of_disjoint (Or.inl (by omega)) (Or.inl (by omega)), hpassing,
      hbelow, Multiset.filter_filter]
    rfl
  case last =>
    show contents (m.swapIfInBounds 0 lower) (upper + 1) (m.swapIfInBounds 0 lower).size = _
    rw [Array.size_swapIfInBounds,
      contents_swapIfInBounds_of_disjoint (Or.inl (by omega)) (Or.inl (by omega)), hmsize,
      hbehind, habove]

/-- If nothing is below the second pivot, the first pivot already stands at its boundary. -/
theorem UpperPlaced.alone (h : UpperPlaced a b between 1 v) : DualBands a b between ⟨v, 0, 1⟩ := by
  obtain ⟨-, hlt, hfirst, hupper, hbelow, habove⟩ := h
  rw [contents_self] at hbelow
  -- nothing stands between the pivots, so both bands below are empty
  have hnone (p : α → Prop) [DecidablePred p] :
      (0 : Multiset α) = between.filter fun x => p x ∧ ¬ Element.le b x := by
    rw [← Multiset.filter_filter, ← hbelow, Multiset.filter_zero]
  constructor
  case lower_lt => exact Nat.zero_lt_one
  case upper_lt => exact hlt
  case at_lower => exact hfirst
  case at_upper => exact hupper
  case first => exact (contents_self v 0).trans (hnone _)
  case middle => exact (contents_self v 1).trans (hnone _)
  case last => exact habove

end Stages

section Dual

variable (lanes : Lanes) {v : Array α} {i j : Nat} (hi : i < v.size) (hj : j < v.size)

theorem dualPivot_of_eqv (h : Element.eqv v[i] v[j]) :
    dualPivot lanes v i j hi hj =
      ⟨(partitionPass lanes .atLeast v v[i]).items, (partitionPass lanes .atLeast v v[i]).boundary,
        (partitionPass lanes .atLeast v v[i]).boundary⟩ := by
  rw [dualPivot, if_pos h]

/-- Different pivots are parked and then placed, the upper one first. -/
theorem dualPivot_of_not_eqv (h : ¬ Element.eqv v[i] v[j]) :
    dualPivot lanes v i j hi hj =
      let parked := parkPivots v i j
      let upper := boundaryInside lanes .atLeast v[j] parked 1 (parked.size - 1)
      let placed := placeUpper lanes v[j] parked
      if upper = 1 then ⟨placed, 0, upper⟩
      else
        ⟨(partitionInside lanes .atLeast v[i] placed 1 upper).swapIfInBounds 0
            (boundaryInside lanes .atLeast v[i] placed 1 upper - 1),
          boundaryInside lanes .atLeast v[i] placed 1 upper - 1, upper⟩ := by
  have hlower (n : Nat) : 1 + n - 1 = n := Nat.add_sub_cancel_left 1 n
  rw [dualPivot, if_neg h]
  simp only [placeUpper, boundaryInside, partitionInside, size_parkPivots, hlower]
  rfl

theorem dualPivot_bands (hij : i ≠ j) (h : ¬ Element.eqv v[i] v[j]) :
    DualBands v[i] v[j] (others v i j) (dualPivot lanes v i j hi hj) := by
  have hplaced := (parkPivots_parked hi hj hij).placeUpper lanes
  rw [dualPivot_of_not_eqv lanes hi hj h]
  simp only
  split
  · rename_i hone
    rw [hone] at hplaced ⊢
    exact hplaced.alone
  · exact hplaced.placeLower lanes

theorem dualPivot_perm (hij : i ≠ j) : (dualPivot lanes v i j hi hj).items.Perm v := by
  by_cases h : Element.eqv v[i] v[j]
  · rw [dualPivot_of_eqv lanes hi hj h]
    exact (partitionPass_sound lanes .atLeast v v[i]).perm
  · have hparked := parkPivots_parked hi hj hij
    have hplaced := hparked.placeUpper lanes
    have hupper := partitionInside_perm lanes .atLeast v[j]
      (Nat.le_sub_one_of_lt hparked.one_lt_size) (Nat.sub_le (parkPivots v i j).size 1)
    have hperm : (placeUpper lanes v[j] (parkPivots v i j)).Perm v :=
      ((swapIfInBounds_perm _ _ _).trans hupper).trans (parkPivots_perm v i j)
    rw [dualPivot_of_not_eqv lanes hi hj h]
    simp only
    generalize placeUpper lanes v[j] (parkPivots v i j) = placed at *
    generalize boundaryInside lanes .atLeast v[j] (parkPivots v i j) 1
      ((parkPivots v i j).size - 1) = upper at *
    have hlower := partitionInside_perm lanes .atLeast v[i] hplaced.one_le
      (Nat.le_of_lt hplaced.lt_size)
    split
    · exact hperm
    · exact ((swapIfInBounds_perm _ _ _).trans hlower).trans hperm

/-- The boundaries of the bands lie inside the array. -/
theorem dualPivot_bounds (hij : i ≠ j) :
    (dualPivot lanes v i j hi hj).lower ≤ (dualPivot lanes v i j hi hj).upper ∧
      (dualPivot lanes v i j hi hj).upper ≤ v.size := by
  by_cases h : Element.eqv v[i] v[j]
  · rw [dualPivot_of_eqv lanes hi hj h]
    exact ⟨Nat.le_refl _, boundary_partitionPass_le lanes .atLeast v v[i]⟩
  · have hbands := dualPivot_bands lanes hi hj hij h
    have hupper := hbands.upper_lt
    rw [(dualPivot_perm lanes hi hj hij).size_eq] at hupper
    exact ⟨Nat.le_of_lt hbands.lower_lt, Nat.le_of_lt hupper⟩

end Dual

end VectorizedSort
