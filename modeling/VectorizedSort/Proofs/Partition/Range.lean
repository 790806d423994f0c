import VectorizedSort.Element.Binary32
import VectorizedSort.Partition.Range
import VectorizedSort.Proofs.Partition.Sweep

/-! # Partitioning is sound

Trimming and sweeping share the boundary and the extremes, so together they separate the whole
array at the boundary, rearrange it, and find its extremes, whatever the length, the lane set and
the pivot are. -/

namespace VectorizedSort

variable {α : Type} [Element α]

/-- A partition is a rearrangement of the given array, separated at the boundary, and its extremes
are those of the array. -/
structure Split.Sound (test : Test) (pivot : α) (init : Extremes α) (v : Array α)
    (s : Split α) : Prop where
  perm : s.items.Perm v
  boundary_le : s.boundary ≤ s.items.size
  separated : Separated test pivot s.items s.boundary s.boundary
  seen : s.seen.Of init (v.toList : Multiset α)

theorem trimToRegisters_sound (lanes : Lanes) (test : Test) (v : Array α) (pivot : α)
    (seen : Extremes α) :
    (trimToRegisters lanes test v pivot seen).Sound test pivot seen v := by
  refine trim_sound test pivot seen v _ _ _ _ _ _ _ ⟨.rfl, separated_full test pivot v, ?_⟩
  rw [outside_full]
  exact .start seen

theorem partitionRange_sound (lanes : Lanes) (test : Test) (v : Array α) (pivot : α)
    (seen : Extremes α) :
    (partitionRange lanes test v pivot seen).Sound test pivot seen v := by
  obtain ⟨hsize, hopen, hright⟩ := trimToRegisters_bounds lanes test v pivot seen
  obtain ⟨hperm, hseparated, hseen⟩ := trimToRegisters_sound lanes test v pivot seen
  rw [partitionRange]
  generalize trimToRegisters lanes test v pivot seen = t at *
  simp only at hsize hopen hright ⊢
  split
  · -- fewer elements than lanes: all have been trimmed
    rename_i hempty
    have hle : t.left ≤ t.items.size := by omega
    have hall := outside_add_contents t.items (Nat.le_refl t.left) hle
    rw [← hempty] at hseparated hseen
    rw [contents_self, add_zero, perm_iff_coe_eq.mp hperm] at hall
    refine ⟨hperm, hle, hseparated, ?_⟩
    rw [← hall]
    exact hseen
  · have hdvd : lanes.width ∣ t.right - t.left := by
      rw [← hopen, Nat.add_sub_cancel_left]
      exact Nat.dvd_sub_mod v.size
    obtain ⟨hle, hsep, hext, hrun⟩ :=
      Sweep.run_finished (by omega) hseparated hseen hdvd (by omega)
    refine ⟨hrun.trans hperm, hle, hsep, ?_⟩
    rw [← perm_iff_coe_eq.mp hperm]
    exact hext.reduce lanes

/-- The state of a partition of at least two registers after its loop has read `n` registers. -/
def sweepAfter (lanes : Lanes) (test : Test) (v : Array α) (pivot : α) (seen : Extremes α)
    (n : Nat) : Sweep α lanes.width :=
  let t := trimToRegisters lanes test v pivot seen
  Sweep.steps lanes test (broadcast lanes.width pivot) n
    (Sweep.holdEnds lanes (Sweep.start lanes t.items t.left t.right t.seen)).2.2

/-- As long as registers are left, the loop of a partition is sound, and its unread range shortens
by a register each time. -/
theorem sweepAfter_sound (lanes : Lanes) (test : Test) (v : Array α) (pivot : α)
    (seen : Extremes α) {n : Nat} (hn : n + 2 ≤ v.size / lanes.width) :
    let t := trimToRegisters lanes test v pivot seen
    let s := sweepAfter lanes test v pivot seen n
    (∃ held, Sweep.Sound test pivot seen t.items held s) ∧ s.mem.size = v.size ∧
      s.right + (n + 2) * lanes.width = s.left + v.size / lanes.width * lanes.width := by
  obtain ⟨hsize, hopen, hright⟩ := trimToRegisters_bounds lanes test v pivot seen
  obtain ⟨-, hseparated, hseen⟩ := trimToRegisters_sound lanes test v pivot seen
  rw [sweepAfter]
  generalize trimToRegisters lanes test v pivot seen = t at *
  simp only at hsize hopen hright ⊢
  -- the trimmed range holds whole registers, two of which are held back
  have hrange : v.size - v.size % lanes.width = v.size / lanes.width * lanes.width :=
    Nat.sub_eq_of_eq_add (Nat.div_add_mod' v.size lanes.width).symm
  have hroom := Nat.mul_le_mul_right lanes.width hn
  rw [← hrange]
  rw [← hrange, Nat.add_mul] at hroom
  have hheld := Sweep.sound_holdEnds (by omega) hseparated hseen
    (by omega : t.left + 2 * lanes.width ≤ t.right)
  obtain ⟨hsteps, hread⟩ := hheld.steps
    (show t.left + lanes.width + n * lanes.width ≤ t.right - lanes.width by omega)
  refine ⟨⟨_, hsteps⟩, (Sweep.size_mem_steps ..).trans hsize, ?_⟩
  have hheld_range :
      (Sweep.holdEnds lanes (Sweep.start lanes t.items t.left t.right t.seen)).2.2.right
      - (Sweep.holdEnds lanes (Sweep.start lanes t.items t.left t.right t.seen)).2.2.left
        = t.right - lanes.width - (t.left + lanes.width) := rfl
  rw [hheld_range] at hread
  rw [Nat.add_mul]
  omega

/-- Before every load of the loop the cursors are in order. When the loop ends nothing is left to
read, and the two registers that were held back are left to place. -/
theorem sweepAfter_inRange (lanes : Lanes) (test : Test) (v : Array α) (pivot : α)
    (seen : Extremes α) {n : Nat} (hn : n + 2 ≤ v.size / lanes.width) :
    let s := sweepAfter lanes test v pivot seen n
    s.InRange v.size ∧
      (n + 2 = v.size / lanes.width → s.right = s.left ∧ s.unplaced = lanes.width) := by
  obtain ⟨⟨held, hsound⟩, hsize, hread⟩ := sweepAfter_sound lanes test v pivot seen hn
  refine ⟨hsize ▸ hsound.inRange, fun hlast => ?_⟩
  rw [hlast] at hread
  have hfree := hsound.free
  exact ⟨by omega, by omega⟩

theorem partitionPass_sound (lanes : Lanes) (test : Test) (v : Array α) (pivot : α) :
    (partitionPass lanes test v pivot).Sound test pivot .seed v :=
  partitionRange_sound lanes test v pivot .seed

/-! ### What separation says about the parts -/

namespace Separated

variable {test : Test} {pivot : α} {v : Array α} {boundary : Nat}

/-- The elements left of the boundary are exactly those that fail. -/
theorem contents_left (h : Separated test pivot v boundary boundary) (hle : boundary ≤ v.size) :
    contents v 0 boundary = (v.toList : Multiset α).filter fun x => ¬ test.passes x pivot := by
  rw [← contents_full, ← contents_add_contents v (Nat.zero_le boundary) hle, Multiset.filter_add,
    Multiset.filter_eq_self.mpr h.failing, Multiset.filter_eq_nil.mpr fun x hx hfail =>
      hfail (h.passing x hx), add_zero]

/-- The elements from the boundary on are exactly those that pass. -/
theorem contents_right (h : Separated test pivot v boundary boundary) (hle : boundary ≤ v.size) :
    contents v boundary v.size = (v.toList : Multiset α).filter fun x => test.passes x pivot := by
  rw [← contents_full, ← contents_add_contents v (Nat.zero_le boundary) hle, Multiset.filter_add,
    Multiset.filter_eq_self.mpr h.passing, Multiset.filter_eq_nil.mpr h.failing, zero_add]

/-- The boundary counts the elements that fail. -/
theorem boundary_eq_countP (h : Separated test pivot v boundary boundary)
    (hle : boundary ≤ v.size) : boundary = v.toList.countP fun x => !test.passes x pivot := by
  have hcard := congrArg Multiset.card (h.contents_left hle)
  rw [card_contents v hle, Nat.sub_zero, ← Multiset.countP_eq_card_filter, Multiset.coe_countP]
    at hcard
  simpa using hcard

/-- A slot lies behind the boundary exactly if its element passes. -/
theorem passes_iff_le (h : Separated test pivot v boundary boundary) {i : Nat} (hi : i < v.size) :
    test.passes v[i] pivot ↔ boundary ≤ i := by
  constructor
  · intro hpass
    by_contra hlt
    exact forall_mem_contents.mp h.failing i hi (Nat.zero_le i) (Nat.lt_of_not_le hlt) hpass
  · intro hle
    exact forall_mem_contents.mp h.passing i hi hle hi

end Separated

/-- An unordered element fails every test, against every pivot. -/
theorem Test.not_passes_of_unordered (test : Test) {x : α} (h : ¬ Element.isOrdered x) (pivot : α) :
    ¬ test.passes x pivot := by
  cases test with
  | atLeast => exact fun hle => h (Element.isOrdered_right_of_le hle)
  | above => exact fun hlt => h (Element.isOrdered_right_of_lt hlt)

/-- A partition with ordered initial extremes, as a whole: it counts the failing elements,
separates the array there without losing an element, and ends with ordered extremes that were met
and that no ordered element of the array lies outside of. -/
theorem partitionRange_correct (lanes : Lanes) (test : Test) (v : Array α) (pivot : α)
    (init : Extremes α) (hsmallest : Element.isOrdered init.smallest)
    (hbiggest : Element.isOrdered init.biggest) :
    let split := partitionRange lanes test v pivot init
    split.boundary = v.toList.countP (fun x => !test.passes x pivot) ∧
      (∀ x ∈ v, ¬ Element.isOrdered x → ¬ test.passes x pivot) ∧
      (∀ (i : Nat) (h : i < split.items.size),
        test.passes split.items[i] pivot ↔ split.boundary ≤ i) ∧
      split.items.Perm v ∧
      (Element.isOrdered split.seen.smallest ∧
        (split.seen.smallest = init.smallest ∨ split.seen.smallest ∈ v) ∧
        Element.le split.seen.smallest init.smallest ∧
        ∀ x ∈ v, Element.isOrdered x → Element.le split.seen.smallest x) ∧
      (Element.isOrdered split.seen.biggest ∧
        (split.seen.biggest = init.biggest ∨ split.seen.biggest ∈ v) ∧
        Element.le init.biggest split.seen.biggest ∧
        ∀ x ∈ v, Element.isOrdered x → Element.le x split.seen.biggest) := by
  intro split
  have hsound := partitionRange_sound lanes test v pivot init
  have hmin := hsound.seen.smallest hsmallest
  have hmax := hsound.seen.biggest hbiggest
  refine ⟨?_, fun x _ hx => test.not_passes_of_unordered hx pivot, ?_, hsound.perm, ?_, ?_⟩
  · have hcount := hsound.separated.boundary_eq_countP hsound.boundary_le
    rw [(Array.perm_iff_toList_perm.mp hsound.perm).countP_eq] at hcount
    exact hcount
  · intro i hi
    exact hsound.separated.passes_iff_le hi
  · refine ⟨hmin.ordered, ?_, hmin.noWorse_init, fun x hx => hmin.noWorse_mem x (by simpa using hx)⟩
    simpa using hmin.origin
  · refine ⟨hmax.ordered, ?_, hmax.noWorse_init, fun x hx => hmax.noWorse_mem x (by simpa using hx)⟩
    simpa using hmax.origin

/-- Five floats, the second one a NaN, do not fill two registers of width two. -/
theorem partitionRange_correct_ragged :
    let v : Array Binary32 := #[⟨0x40000000⟩, .quietNaN, ⟨0⟩, ⟨0x80000000⟩, ⟨0x3f800000⟩]
    let split := partitionRange (.portable 2 (by decide)) .above v ⟨0x80000000⟩ .seed
    Element.isOrdered (Extremes.seed : Extremes Binary32).smallest ∧
      Element.isOrdered (Extremes.seed : Extremes Binary32).biggest ∧
      split.boundary = 3 ∧ split.items.Perm v ∧
      ∀ x ∈ v, Element.isOrdered x → Element.le x split.seen.biggest := by
  obtain ⟨hcount, -, -, hperm, -, -, -, -, hmax⟩ := partitionRange_correct
    (.portable 2 (by decide)) .above
    #[⟨0x40000000⟩, .quietNaN, ⟨0⟩, ⟨0x80000000⟩, ⟨0x3f800000⟩] (⟨0x80000000⟩ : Binary32) .seed
    (by decide) (by decide)
  exact ⟨by decide, by decide, hcount.trans (by decide), hperm, hmax⟩

end VectorizedSort
