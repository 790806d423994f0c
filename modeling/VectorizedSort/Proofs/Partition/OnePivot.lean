import VectorizedSort.Element.Binary32
import VectorizedSort.Proofs.Partition.Pivots

/-! # Partitioning around one element

The first pass sends everything that is at least the pivot to the right, so unordered elements stay
on the left with the smaller ones. The second pass starts where the first one ended and only meets
elements that are at least the pivot, of which it keeps the equal ones on the left. An unordered
pivot is passed by nothing, and then both bounds stand at the end of the array. -/

namespace VectorizedSort

open Element

variable {α : Type} [Element α]

/-! ### The three classes of elements -/

section Classes

variable {pivot x : α}

/-- What is not at least an ordered pivot is below it or unordered. -/
theorem not_le_iff_lt_or_unordered (hpivot : isOrdered pivot) :
    ¬ le pivot x ↔ lt x pivot ∨ ¬ isOrdered x := by
  constructor
  · intro hnot
    by_cases hx : isOrdered x
    · exact Or.inl ((not_le_iff_lt hpivot hx).mp hnot)
    · exact Or.inr hx
  · rintro (hlt | hx) hle
    · exact (not_le_iff_lt hpivot (isOrdered_right_of_le hle)).mpr hlt hle
    · exact hx (isOrdered_right_of_le hle)

/-- What is at least the pivot but not above it compares equal to it. -/
theorem le_and_not_lt_iff_eqv : le pivot x ∧ ¬ lt pivot x ↔ eqv x pivot := by
  rw [eqv_iff_le_le]
  constructor
  · rintro ⟨hle, hnot⟩
    exact ⟨(not_lt_iff_le (isOrdered_left_of_le hle) (isOrdered_right_of_le hle)).mp hnot, hle⟩
  · rintro ⟨hge, hle⟩
    exact ⟨hle, (not_lt_iff_le (isOrdered_left_of_le hle) (isOrdered_right_of_le hle)).mpr hge⟩

/-- Nothing passes a test against an unordered pivot. -/
theorem Test.not_passes_unordered (test : Test) (hpivot : ¬ isOrdered pivot) (x : α) :
    ¬ test.passes x pivot := by
  cases test with
  | atLeast => exact fun hle => hpivot (isOrdered_left_of_le hle)
  | above => exact fun hlt => hpivot (isOrdered_left_of_le (le_of_lt hlt))

end Classes

/-! ### The bands -/

section OnePivot

variable (lanes : Lanes) (v : Array α) (i : Nat) (hi : i < v.size)

/-- The elements of the bands, in terms of the tests they were put to. -/
theorem contents_singlePivot :
    let r := singlePivot lanes v i hi
    contents r.items 0 r.lower = (v.toList : Multiset α).filter (fun x => ¬ le v[i] x) ∧
      contents r.items r.lower r.upper =
        (v.toList : Multiset α).filter (fun x => le v[i] x ∧ ¬ lt v[i] x) ∧
      contents r.items r.upper r.items.size =
        (v.toList : Multiset α).filter fun x => le v[i] x ∧ lt v[i] x := by
  have hsound := partitionPass_sound lanes .atLeast v v[i]
  have hle := hsound.boundary_le
  have hperm := perm_iff_coe_eq.mp hsound.perm
  have hfirst := hsound.separated.contents_left hle
  have hrest := hsound.separated.contents_right hle
  rw [hperm] at hfirst hrest
  rw [singlePivot_eq]
  generalize partitionPass lanes .atLeast v v[i] = below at *
  have hsize := size_partitionInside lanes .above v[i] below.items below.boundary below.items.size
  refine ⟨?_, ?_, ?_⟩
  · -- the second pass does not reach into the first band
    exact (contents_partitionInside_of_disjoint lanes .above v[i] hle (Nat.le_refl _)
      (Or.inl (Nat.le_refl below.boundary))).trans hfirst
  · have hfailing := contents_partitionInside_failing lanes .above v[i] hle (Nat.le_refl _)
    rw [hrest, Multiset.filter_filter] at hfailing
    refine hfailing.trans (Multiset.filter_congr fun x _ => ?_)
    exact and_comm
  · have hpassing := contents_partitionInside_passing lanes .above v[i] hle (Nat.le_refl _)
    rw [hrest, Multiset.filter_filter] at hpassing
    simp only [hsize]
    refine hpassing.trans (Multiset.filter_congr fun x _ => ?_)
    exact and_comm

end OnePivot

/-- What a partition around the element at a position leaves. An unordered element makes no bands. -/
structure AroundOne (v : Array α) (i : Nat) (hi : i < v.size) (r : Bands α) : Prop where
  perm : r.items.Perm v
  lower_lt : isOrdered v[i] → r.lower < r.upper
  upper_le : r.upper ≤ v.size
  first : isOrdered v[i] → contents r.items 0 r.lower =
    (v.toList : Multiset α).filter fun x => lt x v[i] ∨ ¬ isOrdered x
  middle : isOrdered v[i] → contents r.items r.lower r.upper =
    (v.toList : Multiset α).filter fun x => eqv x v[i]
  last : isOrdered v[i] → contents r.items r.upper r.items.size =
    (v.toList : Multiset α).filter fun x => lt v[i] x
  unordered : ¬ isOrdered v[i] → r.lower = v.size ∧ r.upper = v.size

section AroundOne

variable (lanes : Lanes) {v : Array α} {i : Nat} {hi : i < v.size}

theorem singlePivot_aroundOne : AroundOne v i hi (singlePivot lanes v i hi) := by
  obtain ⟨hfirst, hmiddle, hlast⟩ := contents_singlePivot lanes v i hi
  obtain ⟨hbounds, hupper⟩ := singlePivot_bounds lanes v i hi
  have hperm := singlePivot_perm lanes v i hi
  have hequal := hmiddle.trans (Multiset.filter_congr fun x _ => le_and_not_lt_iff_eqv)
  constructor
  case perm => exact hperm
  case lower_lt =>
    -- the pivot itself stands in the middle band
    intro hpivot
    have hmem : v[i] ∈ contents (singlePivot lanes v i hi).items (singlePivot lanes v i hi).lower
        (singlePivot lanes v i hi).upper := by
      rw [hequal, Multiset.mem_filter]
      exact ⟨by simp, eqv_iff_le_le.mpr ⟨le_refl hpivot, le_refl hpivot⟩⟩
    obtain ⟨k, hk_lower, hk_upper, -⟩ := mem_contents.mp hmem
    exact Nat.lt_of_le_of_lt hk_lower hk_upper
  case upper_le => exact hupper
  case first =>
    intro hpivot
    exact hfirst.trans (Multiset.filter_congr fun x _ => not_le_iff_lt_or_unordered hpivot)
  case middle => exact fun _ => hequal
  case last =>
    intro _
    exact hlast.trans (Multiset.filter_congr fun x _ => and_iff_right_of_imp le_of_lt)
  case unordered =>
    intro hpivot
    have hall : contents (singlePivot lanes v i hi).items 0 (singlePivot lanes v i hi).lower =
        (v.toList : Multiset α) :=
      hfirst.trans (Multiset.filter_eq_self.mpr fun x _ =>
        Test.atLeast.not_passes_unordered hpivot x)
    have hlower := hbounds.trans hupper
    have hcard := congrArg Multiset.card hall
    rw [card_contents _ (hperm.size_eq ▸ hlower), Nat.sub_zero, Multiset.coe_card,
      Array.length_toList] at hcard
    omega

end AroundOne

/-! ### Entry points -/

/-- Every partition around one element splits off exactly the elements below it together with the
unordered ones, those that compare equal to it, and those above it. Around an unordered element
everything stays in the first band. -/
theorem partition_around_one {v : Array α} {i : Nat} (hi : i < v.size) (lanes : Lanes) :
    let bands := partitionBands lanes v i i hi hi
    AroundOne v i hi bands ∧
      (∀ cpu : Cpu, cpu.supports lanes.backend → partitionWith cpu lanes v i i = .ok bands) ∧
      (∀ (cpu : Cpu) (backend : Backend), cpu.lanes backend = lanes →
        (partitionOn cpu backend v i i).map (·.value) = .ok bands) ∧
      ∀ host : Host, host.cpu.lanes host.selected = lanes →
        (partition host v i i).map (·.value) = .ok bands := by
  refine ⟨?_, ?_, ?_, ?_⟩
  · rw [partitionBands, if_pos rfl]
    exact singlePivot_aroundOne lanes
  · intro cpu hcpu
    exact partitionWith_of_lt hcpu hi hi
  · rintro cpu backend rfl
    exact partitionOn_of_lt cpu backend hi hi
  · rintro host rfl
    exact partition_of_lt host hi hi

/-- Around a negative zero, both zeros form the middle band, and a NaN joins the negative numbers. -/
theorem partition_around_one_of_zero :
    let v : Array Binary32 := #[⟨0x3f800000⟩, ⟨0⟩, .quietNaN, ⟨0x80000000⟩, .negInfinity]
    let bands := partitionBands .avx2 v 3 3 (by decide) (by decide)
    bands.lower < bands.upper ∧ contents bands.items 0 bands.lower = {.quietNaN, .negInfinity} ∧
      contents bands.items bands.lower bands.upper = {⟨0⟩, ⟨0x80000000⟩} ∧
      contents bands.items bands.upper bands.items.size = {⟨0x3f800000⟩} := by
  obtain ⟨haround, -⟩ := partition_around_one
    (v := #[(⟨0x3f800000⟩ : Binary32), ⟨0⟩, .quietNaN, ⟨0x80000000⟩, .negInfinity]) (i := 3)
    (by decide) .avx2
  have hzero : isOrdered (⟨0x80000000⟩ : Binary32) = true := by decide
  exact ⟨haround.lower_lt hzero, (haround.first hzero).trans (by decide),
    (haround.middle hzero).trans (by decide), (haround.last hzero).trans (by decide)⟩

end VectorizedSort
