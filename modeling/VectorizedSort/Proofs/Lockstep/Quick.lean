import VectorizedSort.Proofs.Lockstep.Partition
import VectorizedSort.Proofs.Lockstep.Sort
import VectorizedSort.Proofs.Sort.Quick

/-! # The quicksort in lockstep

Two quicksorts of paired arrays treat the same ranges in the same order. The extremes of a level
may be different elements, and with different seeds they may not even be related. But a level only
asks whether its pivot compares equal to one of them, and that is a question about the comparisons
of the pivot with the elements of the range. -/

namespace VectorizedSort

open Element

variable {α β : Type} [Element α] [Element β] {R : α → β → Prop} (hR : ComparesAlike R)

/-! ### The pivot -/

section Pivot

include hR

theorem medianOfThree_related {a b c : α} {a' b' c' : β} (ha : R a a') (hb : R b b')
    (hc : R c c') : R (medianOfThree a b c) (medianOfThree a' b' c') := by
  rw [medianOfThree, medianOfThree, hR.lt_eq ha hb, hR.lt_eq hc ha, hR.lt_eq hc hb]
  split
  · split
    · exact ha
    · split
      · exact hc
      · exact hb
  · split
    · exact hb
    · split
      · exact hc
      · exact ha

/-- The pivot is taken from the same position. -/
theorem choosePivot_related {v : Array α} {w : Array β} (h : Paired R v w) (hv : 0 < v.size)
    (hw : 0 < w.size) : R (choosePivot v hv) (choosePivot w hw) := by
  have hsize := h.size_eq
  have hget (i : Nat) (hi : i < v.size) (hi' : i < w.size) := h.getElem i hi hi'
  simp only [choosePivot, ← hsize]
  split
  · exact hget 0 hv hw
  · exact medianOfThree_related hR (hget _ _ _) (hget _ _ _) (hget _ _ _)

end Pivot

/-! ### The answers about the extremes -/

namespace Split.Sound

section Answers

variable {range : Array α} {range' : Array β} {pivot : α} {pivot' : β} {below : Split α}
  {below' : Split β} (hrelated : R pivot pivot') (h : Paired R range range')
  (hsplit : below.Sound .atLeast pivot .seed range) (hpivot : pivot ∈ range)
  (hsplit' : below'.Sound .atLeast pivot' .seed range') (hpivot' : pivot' ∈ range')

include hR hrelated h hsplit hpivot hsplit' hpivot'

theorem eqv_biggest_eq : eqv pivot below.seen.biggest = eqv pivot' below'.seen.biggest := by
  rw [Bool.eq_iff_iff, hsplit.eqv_biggest_iff hpivot, hsplit'.eqv_biggest_iff hpivot',
    hR.isOrdered_eq hrelated, h.forall_mem_iff]
  intro a b hab
  rw [hR.isOrdered_eq hab, hR.le_eq hab hrelated]

theorem eqv_smallest_eq : eqv pivot below.seen.smallest = eqv pivot' below'.seen.smallest := by
  rw [Bool.eq_iff_iff, hsplit.eqv_smallest_iff hpivot, hsplit'.eqv_smallest_iff hpivot',
    hR.isOrdered_eq hrelated, h.forall_mem_iff]
  intro a b hab
  rw [hR.isOrdered_eq hab, hR.le_eq hrelated hab]

end Answers

end Split.Sound

/-! ### Levels -/

/-- Two levels that leave the same parts to be sorted. -/
structure Level.Alike (R : α → β → Prop) (s : Level α) (t : Level β) : Prop where
  items : Paired R s.items t.items
  boundary_eq : s.boundary = t.boundary
  rightStart_eq : s.rightStart = t.rightStart
  sortsRight_eq : s.sortsRight = t.sortsRight
  sortsLeft_eq : s.sortsLeft = t.sortsLeft

/-- Paired arrays with the same answers about the extremes. -/
theorem Level.Alike.of_paired {items : Array α} {items' : Array β} {pivot : α} {pivot' : β}
    {seen : Extremes α} {seen' : Extremes β} (h : Paired R items items')
    (hbiggest : eqv pivot seen.biggest = eqv pivot' seen'.biggest)
    (hsmallest : eqv pivot seen.smallest = eqv pivot' seen'.smallest) (boundary rightStart : Nat) :
    Alike R ⟨items, pivot, seen, boundary, rightStart⟩
      ⟨items', pivot', seen', boundary, rightStart⟩ :=
  ⟨h, rfl, rfl, congrArg not hbiggest, congrArg not hsmallest⟩

include hR in
theorem Level.ofRange_alike {lanes lanes' : Lanes} (hwidth : lanes.width = lanes'.width)
    {range : Array α} {range' : Array β} (h : Paired R range range') (hrange : 0 < range.size)
    (hrange' : 0 < range'.size) :
    Level.Alike R (ofRange lanes range hrange) (ofRange lanes' range' hrange') := by
  have hpivot := choosePivot_related hR h hrange hrange'
  have hmem := choosePivot_mem range hrange
  have hmem' := choosePivot_mem range' hrange'
  have hbelow := partitionRange_alike hR .atLeast hpivot hwidth h .seed .seed
  have hsound := partitionRange_sound lanes .atLeast range (choosePivot range hrange) .seed
  have hsound' := partitionRange_sound lanes' .atLeast range' (choosePivot range' hrange') .seed
  have hbiggest := Split.Sound.eqv_biggest_eq hR hpivot h hsound hmem hsound' hmem'
  have hsmallest := Split.Sound.eqv_smallest_eq hR hpivot h hsound hmem hsound' hmem'
  rw [ofRange_eq, ofRange_eq]
  simp only
  generalize partitionRange lanes .atLeast range (choosePivot range hrange) .seed = below at *
  generalize partitionRange lanes' .atLeast range' (choosePivot range' hrange') .seed = below' at *
  simp only [← hbiggest, ← hsmallest, ← hbelow.boundary_eq, ← hbelow.items.size_eq]
  by_cases hextra : (!eqv (choosePivot range hrange) below.seen.biggest &&
      eqv (choosePivot range hrange) below.seen.smallest) = true
  · rw [if_pos hextra, if_pos hextra,
      ← boundaryInside_eq hR .above hpivot hwidth hbelow.items below.boundary below.items.size]
    exact .of_paired (partitionInside_paired hR .above hpivot hwidth hbelow.items _ _) hbiggest
      hsmallest _ _
  · rw [if_neg hextra, if_neg hextra]
    exact .of_paired hbelow.items hbiggest hsmallest _ _

theorem Level.Alike.parts_eq {level : Level α} {level' : Level β} (h : Level.Alike R level level')
    (p : Pending) (limit : Nat) : p.parts limit level = p.parts limit level' := by
  rw [Pending.parts, Pending.parts, h.sortsRight_eq, h.sortsLeft_eq, h.rightStart_eq, h.boundary_eq]

/-! ### The loop -/

/-- Two arrays with the same waiting ranges. -/
structure Work.Alike (R : α → β → Prop) (s : Work α) (t : Work β) : Prop where
  items : Paired R s.items t.items
  stack_eq : s.stack = t.stack

section Loop

variable {lanes lanes' : Lanes} (hwidth : lanes.width = lanes'.width)

include hR hwidth

/-- A range is treated the same way in both arrays. -/
theorem Work.step_alike {items : Array α} {items' : Array β} (h : Paired R items items')
    (p : Pending) (rest : List Pending) :
    SameOutcome (Work.Alike R) (step lanes items p rest) (step lanes' items' p rest) := by
  have hrange := h.slice p.left p.right
  have hsize := hrange.size_eq
  rw [step, step]
  simp only
  by_cases hshort : (slice items p.left p.right).size ≤ runThreshold
  · rw [dif_pos hshort, dif_pos (hsize ▸ hshort)]
    exact .ok ⟨h, rfl⟩
  · rw [dif_neg hshort, dif_neg (hsize ▸ hshort)]
    split
    · exact .ok ⟨h.splice p.left (heapSort_paired hR hrange), rfl⟩
    · rename_i limit _
      have hlevel := Level.ofRange_alike hR hwidth hrange (by omega) (by omega)
      rw [hlevel.parts_eq]
      cases pushAll rest (p.parts limit (Level.ofRange lanes' (slice items' p.left p.right) _)) with
      | ok stack => exact .ok ⟨h.splice p.left hlevel.items, rfl⟩
      | error fault => exact .error fault

/-- So the loop goes through the same work stacks. -/
theorem Work.run_alike {items : Array α} {items' : Array β} (h : Paired R items items')
    (stack : List Pending) :
    SameOutcome (Paired R) (run lanes items stack) (run lanes' items' stack) := by
  fun_induction run lanes items stack generalizing items' with
  | case1 items =>
    rw [run]
    exact .ok h
  | case2 items p rest next hnext ih =>
    have hstep := step_alike hR hwidth h p rest
    rw [hnext] at hstep
    obtain ⟨next', hnext', halike⟩ := hstep.exists_ok
    rw [run_cons, hnext']
    show SameOutcome (Paired R) _ (run lanes' next'.items next'.stack)
    rw [← halike.stack_eq]
    exact ih halike.items
  | case3 items p rest fault hfault =>
    have hstep := step_alike hR hwidth h p rest
    rw [hfault] at hstep
    rw [run_cons, hstep.eq_error]
    exact .error fault

theorem quickSort_alike {v : Array α} {w : Array β} (h : Paired R v w) (limit : Nat) :
    SameOutcome (Paired R) (quickSort lanes v limit) (quickSort lanes' w limit) := by
  rw [quickSort, quickSort, ← h.size_eq]
  split
  · exact Work.run_alike hR hwidth h _
  · exact .error _

/-- Short arrays are sorted by insertion, which has no lanes; the others go through the same
quicksort and the same network. -/
theorem sortArray_alike {v : Array α} {w : Array β} (h : Paired R v w) :
    SameOutcome (Paired R) (sortArray lanes v) (sortArray lanes' w) := by
  rw [sortArray, sortArray, ← h.size_eq]
  split
  · split
    · exact insertionSort_paired hR h 1
    · exact .ok h
  · have hquick := quickSort_alike hR hwidth h (2 * v.size.log2)
    generalize quickSort lanes v (2 * v.size.log2) = runs at *
    generalize quickSort lanes' w (2 * v.size.log2) = runs' at *
    cases hquick with
    | ok hruns => exact .ok (exchangeSort_paired hR hruns lanes lanes')
    | error fault => exact .error fault

end Loop

end VectorizedSort
