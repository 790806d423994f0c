import VectorizedSort.Proofs.Lockstep.Paired
import VectorizedSort.Proofs.Partition.Bands

/-! # Partitioning in lockstep

Partitions of paired arrays around related pivots stay paired and find the same boundary, if the
registers have the same width. Placing a register writes its failing and then its passing elements
in lane order, whichever way the lane set carries this out, so two sweeps go through the same
cursors. The running extremes are not followed here: no cursor depends on them, and the order in
which a lane set combines its lanes can decide which of several equal elements they are. -/

namespace VectorizedSort

open Element

variable {α β : Type} {R : α → β → Prop}

/-! ### Partitions that agree -/

/-- Two trimmed arrays that are open on the same range. -/
structure Trimmed.Alike (R : α → β → Prop) (s : Trimmed α) (t : Trimmed β) : Prop where
  items : Paired R s.items t.items
  left_eq : s.left = t.left
  right_eq : s.right = t.right

/-- Two sweeps at the same cursors. -/
structure Sweep.Alike {k k' : Nat} (R : α → β → Prop) (s : Sweep α k) (t : Sweep β k') :
    Prop where
  mem : Paired R s.mem t.mem
  left_eq : s.left = t.left
  right_eq : s.right = t.right
  store_eq : s.store = t.store
  unplaced_eq : s.unplaced = t.unplaced

/-- Two partitioned arrays with the same boundary. -/
structure Split.Alike (R : α → β → Prop) (s : Split α) (t : Split β) : Prop where
  items : Paired R s.items t.items
  boundary_eq : s.boundary = t.boundary

/-- Two arrays in the same bands. -/
structure Bands.Alike (R : α → β → Prop) (s : Bands α) (t : Bands β) : Prop where
  items : Paired R s.items t.items
  lower_eq : s.lower = t.lower
  upper_eq : s.upper = t.upper

/-- Paired arrays with the same bounds. -/
theorem Bands.Alike.of_paired {items : Array α} {items' : Array β} (h : Paired R items items')
    (lower upper : Nat) : Alike R ⟨items, lower, upper⟩ ⟨items', lower, upper⟩ :=
  ⟨h, rfl, rfl⟩

variable [Element α] [Element β] (hR : ComparesAlike R) (test : Test) {pivot : α} {pivot' : β}
  (hpivot : R pivot pivot')

/-! ### Trimming -/

include hR hpivot in
/-- Every element goes to the same side. -/
theorem trim_alike (count : Nat) {items : Array α} {items' : Array β} (h : Paired R items items')
    (left right : Nat) (seen : Extremes α) (seen' : Extremes β) (hcount : left + count ≤ right)
    (hright : right ≤ items.size) (hright' : right ≤ items'.size) :
    Trimmed.Alike R (trim test pivot count items left right seen hcount hright)
      (trim test pivot' count items' left right seen' hcount hright') := by
  induction count generalizing items items' left right seen seen' with
  | zero => exact ⟨h, rfl, rfl⟩
  | succ count ih =>
    have hx := h.getElem left (by omega) (by omega)
    rw [trim, trim, hR.passes_eq test hx hpivot]
    split
    · exact ih (h.swap _ _ _ _) _ _ _ _ _ _ _
    · exact ih h _ _ _ _ _ _ _

/-! ### Sweeping -/

/-- Registers loaded from the same slots hold related lanes. -/
theorem load_paired {k k' pos : Nat} (hk : k = k') {v : Array α} {w : Array β}
    (h : Paired R v w) (hpos : pos + k ≤ v.size) :
    List.Forall₂ R (load k v pos).toList (load k' w pos).toList := by
  subst hk
  rw [toList_load hpos, toList_load (h.size_eq ▸ hpos)]
  exact (h.slice pos (pos + k)).forall₂_toList

omit [Element α] [Element β] in
/-- The elements kept by a filter stay related if the filter keeps the same ones. -/
theorem forall₂_filter {p : α → Bool} {q : β → Bool} {xs : List α} {ys : List β}
    (hpq : ∀ a b, R a b → p a = q b) (h : List.Forall₂ R xs ys) :
    List.Forall₂ R (xs.filter p) (ys.filter q) :=
  List.rel_filter (fun a b hab => Bool.eq_iff_iff.mp (hpq a b hab)) h

namespace Sweep

section Place

variable {lanes lanes' : Lanes} {reg : Register α lanes.width} {reg' : Register β lanes'.width}
  {s : Sweep α lanes.width} {t : Sweep β lanes'.width}

include hR hpivot in
/-- The same lanes fail and pass. -/
theorem placed_alike (hwidth : lanes.width = lanes'.width)
    (hreg : List.Forall₂ R reg.toList reg'.toList) (h : Alike R s t) :
    Alike R (placed lanes test pivot reg s) (placed lanes' test pivot' reg' t) := by
  have htest (a : α) (b : β) (hab : R a b) := hR.passes_eq test hab hpivot
  have hpass : List.Forall₂ R (passing test pivot reg.toList) (passing test pivot' reg'.toList) :=
    forall₂_filter htest hreg
  have hfail : List.Forall₂ R (failing test pivot reg.toList) (failing test pivot' reg'.toList) :=
    forall₂_filter (fun a b hab => congrArg not (htest a b hab)) hreg
  constructor
  case mem =>
    rw [mem_placed, mem_placed, ← h.store_eq, ← h.unplaced_eq, ← hfail.length_eq]
    exact (h.mem.writeList _ hfail).writeList _ hpass
  case left_eq => exact h.left_eq
  case right_eq => exact h.right_eq
  case store_eq => rw [store_placed, store_placed, h.store_eq, hfail.length_eq]
  case unplaced_eq =>
    show s.unplaced - lanes.width = t.unplaced - lanes'.width
    rw [h.unplaced_eq, hwidth]

end Place

/-- The next register comes from the same side. -/
theorem take_alike {k k' : Nat} (hk : k = k') {s : Sweep α k} {t : Sweep β k'} (h : Alike R s t)
    (hroom : s.left + k ≤ s.right) (hright : s.right ≤ s.mem.size) :
    List.Forall₂ R s.take.1.toList t.take.1.toList ∧ Alike R s.take.2 t.take.2 := by
  subst hk
  have hside : (t.freeRight < t.freeLeft) = (s.freeRight < s.freeLeft) := by
    rw [freeRight, freeLeft, freeRight, freeLeft, h.left_eq, h.right_eq, h.store_eq, h.unplaced_eq]
  by_cases hless : s.freeRight < s.freeLeft
  · rw [take, take, if_pos hless, if_pos (hside ▸ hless), ← h.right_eq]
    exact ⟨load_paired rfl h.mem (by omega), h.mem, h.left_eq, rfl, h.store_eq, h.unplaced_eq⟩
  · rw [take, take, if_neg hless, if_neg (hside ▸ hless), ← h.left_eq]
    exact ⟨load_paired rfl h.mem (by omega), h.mem, rfl, h.right_eq, h.store_eq, h.unplaced_eq⟩

/-- The registers at both ends hold related lanes. -/
theorem holdEnds_alike {lanes lanes' : Lanes} (hwidth : lanes.width = lanes'.width)
    {s : Sweep α lanes.width} {t : Sweep β lanes'.width} (h : Alike R s t)
    (hroom : s.left + lanes.width ≤ s.right) (hright : s.right ≤ s.mem.size) :
    List.Forall₂ R (s.holdEnds lanes).1.toList (t.holdEnds lanes').1.toList ∧
      List.Forall₂ R (s.holdEnds lanes).2.1.toList (t.holdEnds lanes').2.1.toList ∧
      Alike R (s.holdEnds lanes).2.2 (t.holdEnds lanes').2.2 := by
  simp only [holdEnds, ← h.left_eq, ← h.right_eq, ← hwidth]
  exact ⟨load_paired hwidth h.mem (by omega), load_paired hwidth h.mem (by omega), h.mem, rfl, rfl,
    h.store_eq, h.unplaced_eq⟩

section Steps

variable {lanes lanes' : Lanes} (hwidth : lanes.width = lanes'.width) {init : Extremes α}
  {v : Array α} {held : Multiset α}

include hR hpivot hwidth

theorem step_alike {s : Sweep α lanes.width} {t : Sweep β lanes'.width} (h : Alike R s t)
    (hs : Sound test pivot init v held s) (hroom : s.left + lanes.width ≤ s.right) :
    Alike R (s.step lanes test (broadcast lanes.width pivot))
      (t.step lanes' test (broadcast lanes'.width pivot')) := by
  obtain ⟨hreg, htake⟩ := take_alike hwidth h hroom (hs.right_le.trans hs.top_le)
  exact placed_alike hR test hpivot hwidth hreg htake

/-- As long as there is a register to be read, the sweeps stay together. -/
theorem steps_alike {s : Sweep α lanes.width} {t : Sweep β lanes'.width} {n : Nat}
    (h : Alike R s t) (hs : Sound test pivot init v held s)
    (hn : s.left + n * lanes.width ≤ s.right) :
    Alike R (steps lanes test (broadcast lanes.width pivot) n s)
      (steps lanes' test (broadcast lanes'.width pivot') n t) := by
  induction n generalizing s t with
  | zero => exact h
  | succ n ih =>
    rw [Nat.succ_mul] at hn
    obtain ⟨hstep, hlen⟩ := hs.step (by omega)
    exact ih (step_alike hR test hpivot hwidth h hs (by omega)) hstep (by omega)

/-- So they do on a whole range of registers. -/
theorem run_alike {mem : Array α} {mem' : Array β} {left right : Nat} {seen : Extremes α}
    (seen' : Extremes β) (h : Paired R mem mem') (hright : right ≤ mem.size)
    (hseparated : Separated test pivot mem left right) (hseen : seen.Of init (outside mem left right))
    (hdvd : lanes.width ∣ right - left) (hlt : left < right) :
    Alike R (run lanes test pivot mem left right seen)
      (run lanes' test pivot' mem' left right seen') := by
  have hstart : Alike R (start lanes mem left right seen) (start lanes' mem' left right seen') := by
    refine ⟨h, rfl, rfl, rfl, ?_⟩
    show right - left - lanes.width = right - left - lanes'.width
    rw [hwidth]
  rw [run, run]
  by_cases hone : right - left = lanes.width
  · rw [if_pos hone, if_pos (hone.trans hwidth)]
    exact placed_alike hR test hpivot hwidth (load_paired hwidth h (by omega)) hstart
  · rw [if_neg hone, if_neg (hwidth ▸ hone)]
    -- at least two registers, which are held back
    have hroom : left + 2 * lanes.width ≤ right := by
      obtain ⟨k, hk⟩ := hdvd
      rcases k with _ | _ | k
      · omega
      · omega
      · rw [Nat.mul_succ, Nat.mul_succ] at hk
        omega
    have hsound := sound_holdEnds hright hseparated hseen hroom
    obtain ⟨hfirst, hlast, hheld⟩ := holdEnds_alike hwidth hstart
      (show left + lanes.width ≤ right by omega) hright
    have hread := Nat.add_le_of_le_sub' hsound.left_le (Nat.div_mul_le_self _ lanes.width)
    have hcount := congrArg₂ (· / ·) (congrArg₂ (· - ·) hheld.right_eq hheld.left_eq) hwidth
    have hsteps := steps_alike hR test hpivot hwidth hheld hsound hread
    nth_rewrite 2 [hcount] at hsteps
    have hfirst_placed := placed_alike hR test hpivot hwidth hfirst hsteps
    exact placed_alike hR test hpivot hwidth hlast hfirst_placed

end Steps

end Sweep

/-! ### Whole partitions -/

section Range

variable {lanes lanes' : Lanes} (hwidth : lanes.width = lanes'.width) {v : Array α} {w : Array β}
  (h : Paired R v w)

include hR hpivot hwidth h

theorem trimToRegisters_alike (seen : Extremes α) (seen' : Extremes β) :
    Trimmed.Alike R (trimToRegisters lanes test v pivot seen)
      (trimToRegisters lanes' test w pivot' seen') := by
  have hmod := Nat.mod_le v.size lanes.width
  have halike := trim_alike hR test hpivot (v.size % lanes.width) h 0 v.size seen seen' (by omega)
    (Nat.le_refl _) (Nat.le_of_eq h.size_eq)
  simp only [trimToRegisters, ← h.size_eq, ← hwidth]
  exact halike

/-- Two partitions find the same boundary, whatever extremes they start from. -/
theorem partitionRange_alike (seen : Extremes α) (seen' : Extremes β) :
    Split.Alike R (partitionRange lanes test v pivot seen)
      (partitionRange lanes' test w pivot' seen') := by
  obtain ⟨hsize, hopen, hright⟩ := trimToRegisters_bounds lanes test v pivot seen
  obtain ⟨-, hseparated, hseen⟩ := trimToRegisters_sound lanes test v pivot seen
  have htrim := trimToRegisters_alike hR test hpivot hwidth h seen seen'
  rw [partitionRange, partitionRange]
  generalize trimToRegisters lanes test v pivot seen = s at *
  generalize trimToRegisters lanes' test w pivot' seen' = t at *
  simp only [← htrim.left_eq, ← htrim.right_eq] at hsize hopen hright ⊢
  by_cases hempty : s.left = s.right
  · rw [if_pos hempty, if_pos hempty]
    exact ⟨htrim.items, rfl⟩
  · rw [if_neg hempty, if_neg hempty]
    have hdvd : lanes.width ∣ s.right - s.left := by
      rw [← hopen, Nat.add_sub_cancel_left]
      exact Nat.dvd_sub_mod v.size
    have hrun := Sweep.run_alike hR test hpivot hwidth t.seen htrim.items (by omega) hseparated
      hseen hdvd (by omega)
    exact ⟨hrun.mem, hrun.store_eq⟩

theorem partitionPass_alike :
    Split.Alike R (partitionPass lanes test v pivot) (partitionPass lanes' test w pivot') :=
  partitionRange_alike hR test hpivot hwidth h .seed .seed

theorem partitionInside_paired (lo hi : Nat) :
    Paired R (partitionInside lanes test pivot v lo hi)
      (partitionInside lanes' test pivot' w lo hi) :=
  h.splice lo (partitionPass_alike hR test hpivot hwidth (h.slice lo hi)).items

theorem boundaryInside_eq (lo hi : Nat) :
    boundaryInside lanes test pivot v lo hi = boundaryInside lanes' test pivot' w lo hi := by
  rw [boundaryInside, boundaryInside,
    (partitionPass_alike hR test hpivot hwidth (h.slice lo hi)).boundary_eq]

end Range

/-! ### Bands -/

section Bands

variable {lanes lanes' : Lanes} (hwidth : lanes.width = lanes'.width) {v : Array α} {w : Array β}
  (h : Paired R v w) {i j : Nat} (hi : i < v.size) (hi' : i < w.size)

include hR hwidth h

theorem singlePivot_alike :
    Bands.Alike R (singlePivot lanes v i hi) (singlePivot lanes' w i hi') := by
  have hpivot := h.getElem i hi hi'
  have hbelow := partitionPass_alike hR .atLeast hpivot hwidth h
  have hsize := hbelow.items.size_eq
  rw [singlePivot_eq, singlePivot_eq]
  simp only [← hbelow.boundary_eq, ← hsize,
    ← boundaryInside_eq hR .above hpivot hwidth hbelow.items]
  exact .of_paired (partitionInside_paired hR .above hpivot hwidth hbelow.items _ _) _ _

variable (hj : j < v.size) (hj' : j < w.size)

theorem dualPivot_alike :
    Bands.Alike R (dualPivot lanes v i j hi hj) (dualPivot lanes' w i j hi' hj') := by
  have hpivot₁ := h.getElem i hi hi'
  have hpivot₂ := h.getElem j hj hj'
  by_cases heqv : eqv v[i] v[j]
  · have hpass := partitionPass_alike hR .atLeast hpivot₁ hwidth h
    rw [dualPivot_of_eqv lanes hi hj heqv,
      dualPivot_of_eqv lanes' hi' hj' (hR.eqv_eq hpivot₁ hpivot₂ ▸ heqv)]
    exact ⟨hpass.items, hpass.boundary_eq, hpass.boundary_eq⟩
  · rw [dualPivot_of_not_eqv lanes hi hj heqv,
      dualPivot_of_not_eqv lanes' hi' hj' (hR.eqv_eq hpivot₁ hpivot₂ ▸ heqv)]
    have hparked : Paired R (parkPivots v i j) (parkPivots w i j) := by
      rw [parkPivots, parkPivots, ← h.size_eq]
      exact (h.swapIfInBounds i 0).swapIfInBounds _ _
    have hupper := boundaryInside_eq hR .atLeast hpivot₂ hwidth hparked 1 (v.size - 1)
    have hplaced : Paired R (placeUpper lanes v[j] (parkPivots v i j))
        (placeUpper lanes' w[j] (parkPivots w i j)) := by
      rw [placeUpper, placeUpper, size_parkPivots, size_parkPivots, ← h.size_eq, ← hupper]
      exact (partitionInside_paired hR .atLeast hpivot₂ hwidth hparked _ _).swapIfInBounds _ _
    simp only [size_parkPivots, ← h.size_eq, ← hupper]
    generalize boundaryInside lanes .atLeast v[j] (parkPivots v i j) 1 (v.size - 1) = upper
    generalize placeUpper lanes v[j] (parkPivots v i j) = placed at hplaced ⊢
    generalize placeUpper lanes' w[j] (parkPivots w i j) = placed' at hplaced ⊢
    by_cases hone : upper = 1
    · rw [if_pos hone, if_pos hone]
      exact .of_paired hplaced 0 upper
    · have hinside := partitionInside_paired hR .atLeast hpivot₁ hwidth hplaced 1 upper
      have hlower := boundaryInside_eq hR .atLeast hpivot₁ hwidth hplaced 1 upper
      rw [if_neg hone, if_neg hone, ← hlower]
      exact .of_paired (hinside.swapIfInBounds 0 _) _ upper

theorem partitionBands_alike :
    Bands.Alike R (partitionBands lanes v i j hi hj) (partitionBands lanes' w i j hi' hj') := by
  rw [partitionBands, partitionBands]
  split
  · exact singlePivot_alike hR hwidth h hi hi'
  · exact dualPivot_alike hR hwidth h hi hi' hj hj'

end Bands

end VectorizedSort
