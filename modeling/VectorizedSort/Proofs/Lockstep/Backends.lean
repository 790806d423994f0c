import VectorizedSort.Proofs.Lockstep.Entry

/-! # The shuffles and eight scalar lanes

The two lane sets of width eight give bit for bit the same results. What differs is the order in
which the lanes of the running extremes are combined, by halving the register or from its first lane
on, and so which of the two zeros an extreme is. -/

namespace VectorizedSort

open Element

variable {α : Type} [Element α]

/-! ### Results that are equal -/

theorem SameOutcome.eq {γ : Type} {S : γ → γ → Prop} {r r' : Except Fault γ}
    (h : SameOutcome S r r') (hS : ∀ c d, S c d → c = d) : r = r' := by
  cases h with
  | ok hcd => exact congrArg Except.ok (hS _ _ hcd)
  | error fault => rfl

omit [Element α] in
theorem Bands.Alike.eq {bands bands' : Bands α} (h : Bands.Alike Eq bands bands') :
    bands = bands' := by
  obtain ⟨items, lower, upper⟩ := bands
  obtain ⟨hitems, hlower, hupper⟩ := h
  cases hitems.eq
  cases hlower
  cases hupper
  rfl

/-! ### Extremes that compare equal -/

/-- Of two best elements, neither is worse. -/
theorem BestOf.noWorse {noWorse : α → α → Bool} {init a b : α} {xs : Multiset α}
    (ha : BestOf noWorse init xs a) (hb : BestOf noWorse init xs b) : noWorse a b := by
  rcases hb.origin with rfl | hmem
  · exact ha.noWorse_init
  · exact ha.noWorse_mem b hmem hb.ordered

section Extremes

variable {init s t : Extremes α} {xs : Multiset α} (hs : s.Of init xs) (ht : t.Of init xs)

include hs ht

theorem Extremes.Of.eqv_smallest (hinit : isOrdered init.smallest) : eqv s.smallest t.smallest := by
  have hbest := hs.smallest hinit
  have hbest' := ht.smallest hinit
  exact eqv_iff_le_le.mpr ⟨hbest.noWorse hbest', hbest'.noWorse hbest⟩

theorem Extremes.Of.eqv_biggest (hinit : isOrdered init.biggest) : eqv s.biggest t.biggest := by
  have hbest := hs.biggest hinit
  have hbest' := ht.biggest hinit
  exact eqv_iff_le_le.mpr ⟨hbest'.noWorse hbest, hbest.noWorse hbest'⟩

end Extremes

/-- On a processor that executes the shuffles, they can be exchanged for eight scalar lanes in every
call: arrays and bounds are the same in every bit. The extremes that a partition reports compare
equal, but one may be a positive zero and the other one a negative zero. -/
theorem backends_interchangeable (v : Array α) :
    (∀ cpu : Cpu, cpu.hasAvx2 →
      sortWith cpu .avx2 v = sortWith cpu (.portable 8 (by decide)) v ∧
      (v.size < 2 ^ 64 → (sortWith cpu .avx2 v).isOk) ∧
      ∀ i j,
        partitionWith cpu .avx2 v i j = partitionWith cpu (.portable 8 (by decide)) v i j ∧
        (i < v.size → j < v.size → (partitionWith cpu .avx2 v i j).isOk)) ∧
    (∀ limit, quickSort .avx2 v limit = quickSort (.portable 8 (by decide)) v limit ∧
      (limit ≤ 129 → (quickSort .avx2 v limit).isOk)) ∧
    (∀ (test : Test) (pivot : α) (init : Extremes α),
      let s := partitionRange .avx2 test v pivot init
      let t := partitionRange (.portable 8 (by decide)) test v pivot init
      s.items = t.items ∧ s.boundary = t.boundary ∧
        (isOrdered init.smallest → eqv s.seen.smallest t.seen.smallest) ∧
        (isOrdered init.biggest → eqv s.seen.biggest t.seen.biggest)) ∧
    ∃ zeros : Array Binary32,
      (partitionPass .avx2 .atLeast zeros ⟨0⟩).seen = ⟨⟨0x80000000⟩, ⟨0x80000000⟩⟩ ∧
        (partitionPass (.portable 8 (by decide)) .atLeast zeros ⟨0⟩).seen = ⟨⟨0⟩, ⟨0⟩⟩ := by
  have hR : ComparesAlike (Eq : α → α → Prop) := comparesAlike_eq
  have hwidth : Lanes.avx2.width = (Lanes.portable 8 (by decide)).width := rfl
  have hv := paired_eq_self v
  refine ⟨?_, ?_, ?_, ?_⟩
  · intro cpu hcpu
    have hshuffle : cpu.supports Lanes.avx2.backend := hcpu
    have hscalar : cpu.supports (Lanes.portable 8 (by decide)).backend := rfl
    have hsort := sortWith_alike hR hshuffle hscalar hwidth hv
    refine ⟨hsort.eq fun _ _ hw => hw.eq, sortWith_isOk hshuffle, ?_⟩
    intro i j
    have hpartition := partitionWith_alike hR hshuffle hscalar hwidth hv i j
    exact ⟨hpartition.eq fun _ _ hbands => hbands.eq, partitionWith_isOk hshuffle⟩
  · intro limit
    have hquick := quickSort_alike hR hwidth hv limit
    exact ⟨hquick.eq fun _ _ hw => hw.eq, quickSort_isOk .avx2 v⟩
  · intro test pivot init
    have hsplit := partitionRange_alike hR test (rfl : pivot = pivot) hwidth hv init init
    have hs := (partitionRange_sound .avx2 test v pivot init).seen
    have ht := (partitionRange_sound (.portable 8 (by decide)) test v pivot init).seen
    exact ⟨hsplit.items.eq, hsplit.boundary_eq, hs.eqv_smallest ht, hs.eqv_biggest ht⟩
  · exact ⟨#[⟨0⟩, ⟨0⟩, ⟨0⟩, ⟨0⟩, ⟨0⟩, ⟨0⟩, ⟨0⟩, ⟨0x80000000⟩], by decide +kernel, by decide +kernel⟩

/-- Both zeros, infinities and NaNs among floats that fill several registers, around pivots in the
wrong order. -/
theorem backends_interchangeable_of_floats :
    let scalar := Lanes.portable 8 (by decide)
    let v : Array Binary32 := #[.infinity, ⟨0⟩, .quietNaN, ⟨0x80000000⟩, .negInfinity] ++
      (Array.range 70).map fun i => ⟨UInt32.ofNat i * 0x9e3779b9⟩
    sortWith ⟨true⟩ .avx2 v = sortWith ⟨true⟩ scalar v ∧ (sortWith ⟨true⟩ .avx2 v).isOk ∧
      partitionWith ⟨true⟩ .avx2 v 0 4 = partitionWith ⟨true⟩ scalar v 0 4 ∧
      (partitionWith ⟨true⟩ .avx2 v 0 4).isOk ∧
      quickSort .avx2 v 129 = quickSort scalar v 129 ∧ (quickSort .avx2 v 129).isOk ∧
      eqv (partitionPass .avx2 .above v ⟨0⟩).seen.smallest
        (partitionPass scalar .above v ⟨0⟩).seen.smallest := by
  intro scalar v
  have hsize : v.size = 75 := by decide +kernel
  obtain ⟨hcalls, hquick, hrange, -⟩ := backends_interchangeable v
  obtain ⟨hsort, hsort_ok, hpartition⟩ := hcalls ⟨true⟩ rfl
  obtain ⟨hbands, hbands_ok⟩ := hpartition 0 4
  obtain ⟨hruns, hruns_ok⟩ := hquick 129
  obtain ⟨-, -, hsmallest, -⟩ := hrange .above ⟨0⟩ .seed
  exact ⟨hsort, hsort_ok (by omega), hbands, hbands_ok (by omega) (by omega), hruns,
    hruns_ok (by decide), hsmallest (by decide)⟩

end VectorizedSort
