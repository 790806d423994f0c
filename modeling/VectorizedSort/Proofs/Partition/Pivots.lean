import VectorizedSort.Entry.Typed
import VectorizedSort.Proofs.Order
import VectorizedSort.Proofs.Partition.Bands

/-! # Partitioning around two elements

What the entry points for partitions promise: which elements stand in which band, where the bands
meet, and that neither depends on the lane set. No element and no pivot needs to be ordered. -/

namespace VectorizedSort

variable {α : Type} [Element α]

/-! ### Whole bands -/

namespace DualBands

variable {a b : α} {between : Multiset α} {r : Bands α}

/-- The middle band starts with the first pivot. -/
theorem middle_band (h : DualBands a b between r) :
    contents r.items r.lower r.upper =
      a ::ₘ between.filter fun x => Element.le a x ∧ ¬ Element.le b x := by
  have hlt := h.lower_lt
  obtain ⟨hlower, ha⟩ := Array.getElem?_eq_some_iff.mp h.at_lower
  rw [← contents_add_contents r.items (Nat.le_succ r.lower) hlt, contents_succ r.items hlower, ha,
    h.middle, Multiset.singleton_add]

/-- The last band starts with the second pivot. -/
theorem last_band (h : DualBands a b between r) :
    contents r.items r.upper r.items.size = b ::ₘ between.filter fun x => Element.le b x := by
  obtain ⟨hupper, hb⟩ := Array.getElem?_eq_some_iff.mp h.at_upper
  rw [← contents_add_contents r.items (Nat.le_succ r.upper) hupper, contents_succ r.items hupper,
    hb, h.last, Multiset.singleton_add]

end DualBands

/-- Bands with the same bounds and the same elements in each band, in whatever order. -/
structure SameBands (r s : Bands α) : Prop where
  lower : r.lower = s.lower
  upper : r.upper = s.upper
  first : contents r.items 0 r.lower = contents s.items 0 s.lower
  middle : contents r.items r.lower r.upper = contents s.items s.lower s.upper
  last : contents r.items r.upper r.items.size = contents s.items s.upper s.items.size

/-- What a partition around the elements at two different positions leaves. Pivots that compare
equal leave the middle band empty. -/
structure AroundTwo (v : Array α) (i j : Nat) (hi : i < v.size) (hj : j < v.size)
    (r : Bands α) : Prop where
  perm : r.items.Perm v
  different : ¬ Element.eqv v[i] v[j] → DualBands v[i] v[j] (others v i j) r
  equal_bounds : Element.eqv v[i] v[j] →
    r.lower = r.upper ∧ r.lower = v.toList.countP fun x => !Element.le v[i] x
  equal_first : Element.eqv v[i] v[j] →
    contents r.items 0 r.lower = (v.toList : Multiset α).filter fun x => ¬ Element.le v[i] x
  equal_last : Element.eqv v[i] v[j] →
    contents r.items r.upper r.items.size = (v.toList : Multiset α).filter fun x =>
      Element.le v[i] x

section TwoPivots

variable {v : Array α} {i j : Nat} {hi : i < v.size} {hj : j < v.size}

theorem dualPivot_aroundTwo (lanes : Lanes) (hij : i ≠ j) :
    AroundTwo v i j hi hj (dualPivot lanes v i j hi hj) := by
  have hsplit := partitionPass_sound lanes .atLeast v v[i]
  refine ⟨dualPivot_perm lanes hi hj hij, fun h => dualPivot_bands lanes hi hj hij h, ?_, ?_, ?_⟩
  · intro h
    rw [dualPivot_of_eqv lanes hi hj h]
    refine ⟨rfl, (hsplit.separated.boundary_eq_countP hsplit.boundary_le).trans ?_⟩
    exact (Array.perm_iff_toList_perm.mp hsplit.perm).countP_eq _
  · intro h
    rw [dualPivot_of_eqv lanes hi hj h, ← perm_iff_coe_eq.mp hsplit.perm]
    exact hsplit.separated.contents_left hsplit.boundary_le
  · intro h
    rw [dualPivot_of_eqv lanes hi hj h, ← perm_iff_coe_eq.mp hsplit.perm]
    exact hsplit.separated.contents_right hsplit.boundary_le

namespace AroundTwo

/-- The bounds and the contents of the bands follow from the array and the pivots alone. -/
theorem sameBands {r s : Bands α} (hr : AroundTwo v i j hi hj r) (hs : AroundTwo v i j hi hj s) :
    SameBands r s := by
  by_cases h : Element.eqv v[i] v[j]
  · obtain ⟨hr_bounds, hr_count⟩ := hr.equal_bounds h
    obtain ⟨hs_bounds, hs_count⟩ := hs.equal_bounds h
    have hlower : r.lower = s.lower := hr_count.trans hs_count.symm
    constructor
    case lower => exact hlower
    case upper => rw [← hr_bounds, hlower, hs_bounds]
    case first => rw [hr.equal_first h, hs.equal_first h]
    case middle => rw [← hr_bounds, ← hs_bounds, contents_self, contents_self]
    case last => rw [hr.equal_last h, hs.equal_last h]
  · have hr' := hr.different h
    have hs' := hs.different h
    have hfirst : contents r.items 0 r.lower = contents s.items 0 s.lower := by
      rw [hr'.first, hs'.first]
    have hmiddle : contents r.items r.lower r.upper = contents s.items s.lower s.upper := by
      rw [hr'.middle_band, hs'.middle_band]
    -- the bounds are the lengths of the bands
    have hr_upper := Nat.le_of_lt hr'.upper_lt
    have hs_upper := Nat.le_of_lt hs'.upper_lt
    have hr_lower := Nat.le_of_lt hr'.lower_lt
    have hs_lower := Nat.le_of_lt hs'.lower_lt
    have hlength := congrArg Multiset.card hfirst
    have hwidth := congrArg Multiset.card hmiddle
    rw [card_contents _ (hr_lower.trans hr_upper), card_contents _ (hs_lower.trans hs_upper),
      Nat.sub_zero, Nat.sub_zero] at hlength
    rw [card_contents _ hr_upper, card_contents _ hs_upper] at hwidth
    refine ⟨hlength, by omega, hfirst, hmiddle, ?_⟩
    rw [hr'.last_band, hs'.last_band]

/-- Around ordered pivots in order, the bands of ordered elements are those below the first pivot,
those from it up to the second one, and those from that on. -/
theorem bands_of_lt {r : Bands α} (hij : i ≠ j) (h : AroundTwo v i j hi hj r) (hv : AllOrdered v)
    (hlt : Element.lt v[i] v[j]) :
    contents r.items 0 r.lower = (v.toList : Multiset α).filter (fun x => Element.lt x v[i]) ∧
      contents r.items r.lower r.upper = (v.toList : Multiset α).filter (fun x =>
        Element.le v[i] x ∧ Element.lt x v[j]) ∧
      contents r.items r.upper r.items.size = (v.toList : Multiset α).filter fun x =>
        Element.le v[j] x := by
  have ha : Element.isOrdered v[i] := hv.getElem hi
  have hb : Element.isOrdered v[j] := hv.getElem hj
  have hba : ¬ Element.le v[j] v[i] := (Element.not_le_iff_lt hb ha).mpr hlt
  have hbands := h.different fun heqv => hba (Element.eqv_iff_le_le.mp heqv).2
  have hsplit := cons_cons_others hi hj hij
  have hothers (x : α) (hx : x ∈ others v i j) : Element.isOrdered x := by
    refine hv x ?_
    rw [← Array.mem_toList_iff, ← Multiset.mem_coe, ← hsplit]
    exact Multiset.mem_cons_of_mem (Multiset.mem_cons_of_mem hx)
  -- the pivots themselves belong to the bands they start
  have hirrefl (x : α) (hx : Element.isOrdered x) : ¬ Element.lt x x := by
    rw [Element.not_lt_iff_le hx hx]
    exact Element.le_refl hx
  refine ⟨?_, ?_, ?_⟩
  · have hbelow : ¬ Element.lt v[j] v[i] := fun hji => hba (Element.le_of_lt hji)
    rw [hbands.first, ← hsplit,
      Multiset.filter_cons_of_neg (p := fun x => Element.lt x v[i]) _ (hirrefl v[i] ha),
      Multiset.filter_cons_of_neg (p := fun x => Element.lt x v[i]) _ hbelow]
    refine Multiset.filter_congr fun x hx => ?_
    rw [Element.not_le_iff_lt ha (hothers x hx), Element.not_le_iff_lt hb (hothers x hx)]
    constructor
    · rintro ⟨hxa, -⟩
      exact hxa
    · -- what is below the first pivot is below the second one
      intro hxa
      rw [← Element.not_le_iff_lt hb (hothers x hx)]
      exact ⟨hxa, fun hbx => hba (Element.le_trans hbx (Element.le_of_lt hxa))⟩
  · rw [hbands.middle_band, ← hsplit,
      Multiset.filter_cons_of_pos _ ⟨Element.le_refl ha, hlt⟩,
      Multiset.filter_cons_of_neg _ fun hj => hirrefl v[j] hb hj.2]
    congr 1
    refine Multiset.filter_congr fun x hx => ?_
    rw [Element.not_le_iff_lt hb (hothers x hx)]
  · rw [hbands.last_band, ← hsplit,
      Multiset.filter_cons_of_neg (p := fun x => Element.le v[j] x) _ hba,
      Multiset.filter_cons_of_pos (p := fun x => Element.le v[j] x) _ (Element.le_refl hb)]

end AroundTwo

end TwoPivots

/-! ### Entry points -/

theorem partitionBandsAt_of_lt (lanes : Lanes) {v : Array α} {i j : Nat} (hi : i < v.size)
    (hj : j < v.size) : partitionBandsAt lanes v i j = .ok (partitionBands lanes v i j hi hj) := by
  rw [partitionBandsAt, dif_pos hi, dif_pos hj]

theorem partitionOn_of_lt (cpu : Cpu) (backend : Backend) {v : Array α} {i j : Nat}
    (hi : i < v.size) (hj : j < v.size) :
    (partitionOn cpu backend v i j).map (·.value) =
      .ok (partitionBands (cpu.lanes backend) v i j hi hj) := by
  rw [partitionOn, partitionBandsAt_of_lt (cpu.lanes backend) hi hj]
  rfl

theorem partition_of_lt (host : Host) {v : Array α} {i j : Nat} (hi : i < v.size)
    (hj : j < v.size) :
    (partition host v i j).map (·.value) =
      .ok (partitionBands (host.cpu.lanes host.selected) v i j hi hj) := by
  rw [partition, if_pos ⟨hi, hj⟩, partitionOn_of_lt host.cpu host.selected hi hj]

theorem partitionWith_of_lt {cpu : Cpu} {lanes : Lanes} (hcpu : cpu.supports lanes.backend)
    {v : Array α} {i j : Nat} (hi : i < v.size) (hj : j < v.size) :
    partitionWith cpu lanes v i j = .ok (partitionBands lanes v i j hi hj) := by
  rw [partitionWith, if_pos hcpu, dif_pos ⟨hi, hj⟩]

/-- Every partition around the elements at two different positions puts exactly the right elements
into each of its bands, be they ordered or not, and every lane set finds the same bands. -/
theorem partition_around_two {v : Array α} {i j : Nat} (hi : i < v.size) (hj : j < v.size)
    (hij : i ≠ j) (lanes : Lanes) :
    let bands := partitionBands lanes v i j hi hj
    AroundTwo v i j hi hj bands ∧
      (AllOrdered v → Element.lt v[i] v[j] →
        contents bands.items 0 bands.lower =
            (v.toList : Multiset α).filter (fun x => Element.lt x v[i]) ∧
          contents bands.items bands.lower bands.upper = (v.toList : Multiset α).filter (fun x =>
            Element.le v[i] x ∧ Element.lt x v[j]) ∧
          contents bands.items bands.upper bands.items.size =
            (v.toList : Multiset α).filter fun x => Element.le v[j] x) ∧
      (∀ lanes' : Lanes, SameBands bands (partitionBands lanes' v i j hi hj)) ∧
      (∀ cpu : Cpu, cpu.supports lanes.backend → partitionWith cpu lanes v i j = .ok bands) ∧
      (∀ (cpu : Cpu) (backend : Backend), cpu.lanes backend = lanes →
        (partitionOn cpu backend v i j).map (·.value) = .ok bands) ∧
      ∀ host : Host, host.cpu.lanes host.selected = lanes →
        (partition host v i j).map (·.value) = .ok bands := by
  have haround (lanes : Lanes) : AroundTwo v i j hi hj (partitionBands lanes v i j hi hj) := by
    rw [partitionBands, if_neg hij]
    exact dualPivot_aroundTwo lanes hij
  refine ⟨haround lanes, fun hv hlt => (haround lanes).bands_of_lt hij hv hlt,
    fun lanes' => (haround lanes).sameBands (haround lanes'), ?_, ?_, ?_⟩
  · intro cpu hcpu
    exact partitionWith_of_lt hcpu hi hj
  · rintro cpu backend rfl
    exact partitionOn_of_lt cpu backend hi hj
  · rintro host rfl
    exact partition_of_lt host hi hj

/-- The second pivot stands in the slot where the first one is parked. -/
theorem partition_around_two_of_aliased :
    let v : Array Int32 := #[5, -1, 3, 7, 4]
    let bands := partitionBands (.portable 2 (by decide)) v 2 0 (by decide) (by decide)
    contents bands.items 0 bands.lower = {-1} ∧
      contents bands.items bands.lower bands.upper = {3, 4} ∧
      contents bands.items bands.upper bands.items.size = {5, 7} := by
  obtain ⟨-, hplain, -⟩ := partition_around_two (v := #[(5 : Int32), -1, 3, 7, 4]) (i := 2)
    (j := 0) (by decide) (by decide) (by decide) (.portable 2 (by decide))
  obtain ⟨hfirst, hmiddle, hlast⟩ := hplain (fun x _ => rfl) (by decide)
  exact ⟨hfirst.trans (by decide), hmiddle.trans (by decide), hlast.trans (by decide)⟩

end VectorizedSort
