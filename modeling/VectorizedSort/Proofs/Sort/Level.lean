import VectorizedSort.Proofs.Partition.Bands
import VectorizedSort.Sort.Quick

/-! # One partition level

What a level makes of a range: where its elements stand relative to the pivot, and why the sides
that are skipped need no sorting. Nothing here assumes that elements or pivot are ordered. -/

namespace VectorizedSort

open Element

variable {α : Type} [Element α]

/-! ### The pivot -/

theorem medianOfThree_eq_or (first mid last : α) :
    medianOfThree first mid last = first ∨ medianOfThree first mid last = mid ∨
      medianOfThree first mid last = last := by
  unfold medianOfThree
  split
  · split
    · exact Or.inl rfl
    · split
      · exact Or.inr (Or.inr rfl)
      · exact Or.inr (Or.inl rfl)
  · split
    · exact Or.inr (Or.inl rfl)
    · split
      · exact Or.inr (Or.inr rfl)
      · exact Or.inl rfl

/-- The pivot is an element of the range. -/
theorem choosePivot_mem (v : Array α) (h : 0 < v.size) : choosePivot v h ∈ v := by
  unfold choosePivot
  split
  · exact Array.getElem_mem h
  · rcases medianOfThree_eq_or v[0] v[v.size / 2] v[v.size - 1] with hm | hm | hm
    · rw [hm]
      exact Array.getElem_mem h
    · rw [hm]
      exact Array.getElem_mem _
    · rw [hm]
      exact Array.getElem_mem _

/-! ### What a level asks of its extremes -/

namespace Split.Sound

variable {range : Array α} {pivot : α} {below : Split α}
  (hsplit : below.Sound .atLeast pivot .seed range) (hpivot : pivot ∈ range)

include hsplit hpivot

/-- The pivot compares equal to the biggest element if no ordered element is above it. -/
theorem eqv_biggest_iff : eqv pivot below.seen.biggest ↔
    isOrdered pivot ∧ ∀ x ∈ range, isOrdered x → le x pivot := by
  have hbest := hsplit.seen.biggest isOrdered_least
  have hmax (x : α) (hx : x ∈ range) := hbest.noWorse_mem x (by simpa using hx)
  rw [eqv_iff_le_le]
  constructor
  · rintro ⟨hle, hge⟩
    exact ⟨isOrdered_left_of_le hle, fun x hx hord => le_trans (hmax x hx hord) hge⟩
  · rintro ⟨hord, hall⟩
    refine ⟨hmax pivot hpivot hord, ?_⟩
    -- the biggest element is one of the range, unless it is still the seed
    rcases hbest.origin with hseed | hmem
    · rw [hseed]
      exact least_le hord
    · exact hall _ (by simpa using hmem) hbest.ordered

/-- The pivot compares equal to the smallest element if no ordered element is below it. -/
theorem eqv_smallest_iff : eqv pivot below.seen.smallest ↔
    isOrdered pivot ∧ ∀ x ∈ range, isOrdered x → le pivot x := by
  have hbest := hsplit.seen.smallest isOrdered_greatest
  have hmin (x : α) (hx : x ∈ range) := hbest.noWorse_mem x (by simpa using hx)
  rw [eqv_iff_le_le]
  constructor
  · rintro ⟨hle, hge⟩
    exact ⟨isOrdered_left_of_le hle, fun x hx hord => le_trans hle (hmin x hx hord)⟩
  · rintro ⟨hord, hall⟩
    refine ⟨?_, hmin pivot hpivot hord⟩
    rcases hbest.origin with hseed | hmem
    · rw [hseed]
      exact le_greatest hord
    · exact hall _ (by simpa using hmem) hbest.ordered

end Split.Sound

/-! ### The level -/

namespace Level

/-- What a level achieves on a range. -/
structure Sound (range : Array α) (level : Level α) : Prop where
  perm : level.items.Perm range
  pivot_mem : level.pivot ∈ range
  boundary_le : level.boundary ≤ level.rightStart
  rightStart_le : level.rightStart ≤ level.items.size
  left : ∀ x ∈ contents level.items 0 level.boundary, ¬ le level.pivot x
  equal : ∀ x ∈ contents level.items level.boundary level.rightStart, eqv level.pivot x
  right : ∀ x ∈ contents level.items level.rightStart level.items.size, le level.pivot x
  right_above : level.sortsRight = true → level.sortsLeft = false →
    ∀ x ∈ contents level.items level.rightStart level.items.size, lt level.pivot x
  skip_right : level.sortsRight = false →
    ∀ x ∈ contents level.items level.boundary level.items.size, eqv level.pivot x
  skip_left : level.sortsLeft = false →
    ∀ x ∈ contents level.items 0 level.boundary, ¬ isOrdered x

section Extremes

variable {range : Array α} {pivot : α} {below : Split α}
  (hsplit : below.Sound .atLeast pivot .seed range) (hpivot : pivot ∈ range)

include hsplit hpivot

/-- If the pivot is the biggest element, whatever is at least the pivot compares equal to it. -/
theorem eqv_of_eqv_biggest (heqv : eqv pivot below.seen.biggest) {x : α}
    (hx : x ∈ contents below.items below.boundary below.items.size) : eqv pivot x := by
  have hle : le pivot x := hsplit.separated.passing x hx
  have hmem : x ∈ range := hsplit.perm.mem_iff.mp (mem_of_mem_contents hx)
  have hmax := ((hsplit.eqv_biggest_iff hpivot).mp heqv).2
  exact eqv_iff_le_le.mpr ⟨hle, hmax x hmem (isOrdered_right_of_le hle)⟩

/-- If the pivot is the smallest element, only unordered elements are not at least the pivot. -/
theorem not_isOrdered_of_eqv_smallest (heqv : eqv pivot below.seen.smallest) {x : α}
    (hx : x ∈ contents below.items 0 below.boundary) : ¬ isOrdered x := by
  intro hordered
  have hmem : x ∈ range := hsplit.perm.mem_iff.mp (mem_of_mem_contents hx)
  have hmin := ((hsplit.eqv_smallest_iff hpivot).mp heqv).2
  exact hsplit.separated.failing x hx (hmin x hmem hordered)

/-- The pass alone is a level unless the pivot is the smallest element and not the biggest one. -/
theorem sound_of_split (hextra : (!eqv pivot below.seen.biggest && eqv pivot below.seen.smallest) =
    false) :
    Sound range ⟨below.items, pivot, below.seen, below.boundary, below.boundary⟩ := by
  constructor
  case perm => exact hsplit.perm
  case pivot_mem => exact hpivot
  case boundary_le => exact Nat.le_refl _
  case rightStart_le => exact hsplit.boundary_le
  case left => exact hsplit.separated.failing
  case equal =>
    rw [contents_self]
    exact fun x hx => absurd hx (Multiset.notMem_zero x)
  case right => exact hsplit.separated.passing
  case right_above =>
    -- both sides cannot be left to sort and to skip like this
    intro hright hleft
    rw [sortsRight] at hright
    rw [sortsLeft, Bool.not_eq_false'] at hleft
    rw [hright, hleft] at hextra
    cases hextra
  case skip_right =>
    intro hright x hx
    rw [sortsRight, Bool.not_eq_false'] at hright
    exact eqv_of_eqv_biggest hsplit hpivot hright hx
  case skip_left =>
    intro hleft x hx
    rw [sortsLeft, Bool.not_eq_false'] at hleft
    exact not_isOrdered_of_eqv_smallest hsplit hpivot hleft hx

/-- Otherwise a second pass splits off the elements equal to the pivot. -/
theorem sound_of_split_equal (lanes : Lanes) (hbiggest : eqv pivot below.seen.biggest = false)
    (hsmallest : eqv pivot below.seen.smallest) :
    Sound range
      ⟨partitionInside lanes .above pivot below.items below.boundary below.items.size, pivot,
        below.seen, below.boundary,
        boundaryInside lanes .above pivot below.items below.boundary below.items.size⟩ := by
  have hle := hsplit.boundary_le
  have hfailing := contents_partitionInside_failing lanes .above pivot hle (Nat.le_refl _)
  have hpassing := contents_partitionInside_passing lanes .above pivot hle (Nat.le_refl _)
  have hbefore := contents_partitionInside_of_disjoint lanes .above pivot hle (Nat.le_refl _)
    (a := 0) (Or.inl (Nat.le_refl below.boundary))
  have hsize := size_partitionInside lanes .above pivot below.items below.boundary
    below.items.size
  constructor
  case perm =>
    exact (partitionInside_perm lanes .above pivot hle (Nat.le_refl _)).trans hsplit.perm
  case pivot_mem => exact hpivot
  case boundary_le => exact le_boundaryInside lanes .above pivot _ _ _
  case rightStart_le =>
    simp only [hsize]
    exact boundaryInside_le lanes .above pivot hle (Nat.le_refl _)
  case left =>
    simp only [hbefore]
    exact hsplit.separated.failing
  case equal =>
    -- at least the pivot after the first pass, not above it after the second one
    simp only [hfailing, Multiset.mem_filter]
    rintro x ⟨hx, hnot⟩
    exact eqv_of_le_of_not_lt (hsplit.separated.passing x hx) hnot
  case right =>
    simp only [hsize, hpassing, Multiset.mem_filter]
    rintro x ⟨-, hlt⟩
    exact le_of_lt hlt
  case right_above =>
    simp only [hsize, hpassing, Multiset.mem_filter]
    rintro - - x ⟨-, hlt⟩
    exact hlt
  case skip_right =>
    intro hright
    simp only [sortsRight, hbiggest] at hright
    cases hright
  case skip_left =>
    intro _
    simp only [hbefore]
    exact fun x hx => not_isOrdered_of_eqv_smallest hsplit hpivot hsmallest hx

end Extremes

variable (lanes : Lanes) (range : Array α) (h : 0 < range.size)

/-- Splitting off the elements equal to the pivot is a partition of the right side. -/
theorem ofRange_eq :
    ofRange lanes range h =
      let pivot := choosePivot range h
      let below := partitionRange lanes .atLeast range pivot .seed
      if !eqv pivot below.seen.biggest && eqv pivot below.seen.smallest then
        ⟨partitionInside lanes .above pivot below.items below.boundary below.items.size, pivot,
          below.seen, below.boundary,
          boundaryInside lanes .above pivot below.items below.boundary below.items.size⟩
      else ⟨below.items, pivot, below.seen, below.boundary, below.boundary⟩ := rfl

theorem ofRange_sound : (ofRange lanes range h).Sound range := by
  have hsplit := partitionRange_sound lanes .atLeast range (choosePivot range h) .seed
  have hpivot := choosePivot_mem range h
  rw [ofRange_eq]
  simp only
  split
  · rename_i hextra
    rw [Bool.and_eq_true, Bool.not_eq_true'] at hextra
    exact sound_of_split_equal hsplit hpivot lanes hextra.1 hextra.2
  · rename_i hextra
    exact sound_of_split hsplit hpivot (Bool.eq_false_of_not_eq_true hextra)

/-! ### Levels of ordered elements -/

namespace Sound

variable {range : Array α} {level : Level α} (hlevel : level.Sound range)

include hlevel

/-- From the boundary on, every element is at least the pivot. -/
theorem pivot_le {x : α} (hx : x ∈ contents level.items level.boundary level.items.size) :
    le level.pivot x := by
  rw [← contents_add_contents level.items hlevel.boundary_le hlevel.rightStart_le,
    Multiset.mem_add] at hx
  rcases hx with hx | hx
  · exact (eqv_iff_le_le.mp (hlevel.equal x hx)).1
  · exact hlevel.right x hx

variable (hrange : AllOrdered range)

include hrange

/-- Before the right side that is left to sort, every element is at most the pivot. -/
theorem le_pivot {cut : Nat} (hcut : level.boundary ≤ cut) (hsize : cut ≤ level.items.size)
    (hskip : cut ≤ level.rightStart ∨ level.sortsRight = false) {x : α}
    (hx : x ∈ contents level.items 0 cut) : le x level.pivot := by
  have hpivot := hrange _ hlevel.pivot_mem
  have hordered := hrange x (hlevel.perm.mem_iff.mp (mem_of_mem_contents hx))
  rw [← contents_add_contents level.items (Nat.zero_le level.boundary) hcut,
    Multiset.mem_add] at hx
  rcases hx with hx | hx
  · exact le_of_lt ((not_le_iff_lt hpivot hordered).mp (hlevel.left x hx))
  · have heqv : eqv level.pivot x := by
      rcases hskip with hstart | hskip
      · refine hlevel.equal x ?_
        rw [← contents_add_contents level.items hcut hstart, Multiset.mem_add]
        exact Or.inl hx
      · refine hlevel.skip_right hskip x ?_
        rw [← contents_add_contents level.items hcut hsize, Multiset.mem_add]
        exact Or.inl hx
    exact (eqv_iff_le_le.mp heqv).2

/-- So the elements between the two sides that are left to sort are separated everywhere. -/
theorem le_of_cut {cut : Nat} (hcut : level.boundary ≤ cut) (hsize : cut ≤ level.items.size)
    (hskip : cut ≤ level.rightStart ∨ level.sortsRight = false) :
    ∀ x ∈ contents level.items 0 cut, ∀ y ∈ contents level.items cut level.items.size,
      le x y := by
  intro x hx y hy
  refine le_trans (hlevel.le_pivot hrange hcut hsize hskip hx) (hlevel.pivot_le ?_)
  rw [← contents_add_contents level.items hcut hsize, Multiset.mem_add]
  exact Or.inr hy

/-- A left side that is skipped holds no ordered element. -/
theorem boundary_eq_zero (hskip : level.sortsLeft = false) : level.boundary = 0 := by
  have hle := hlevel.boundary_le.trans hlevel.rightStart_le
  have hnone : contents level.items 0 level.boundary = 0 := by
    rw [Multiset.eq_zero_iff_forall_notMem]
    intro x hx
    exact hlevel.skip_left hskip x hx
      (hrange x (hlevel.perm.mem_iff.mp (mem_of_mem_contents hx)))
  have hcard : (contents level.items 0 level.boundary).card = level.boundary - 0 :=
    card_contents level.items hle
  rw [hnone, Multiset.card_zero, Nat.sub_zero] at hcard
  exact hcard.symm

end Sound

end Level

end VectorizedSort
