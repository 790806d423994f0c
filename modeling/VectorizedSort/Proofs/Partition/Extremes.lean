import VectorizedSort.Proofs.Register.Tests

/-! # Running extremes

A partition keeps the smallest and the biggest element it has met, first one element at a time, then
lane by lane, and combines the lanes at the end. The smallest and the biggest are two preferences
with the same laws, so everything is proved once for a preference: what is kept is ordered, is one
of the elements met or the initial value, and is no worse than any of them. Unordered elements
never win, and the order in which the lanes are combined does not matter for this. -/

namespace VectorizedSort

open Element

variable {α : Type} [Element α]

/-! ### Preferences -/

/-- A strict preference among the ordered elements, and the preorder it is the strict part of. -/
structure Preference (better noWorse : α → α → Bool) : Prop where
  refl {a : α} : isOrdered a → noWorse a a
  trans {a b c : α} : noWorse a b → noWorse b c → noWorse a c
  isOrdered_left {a b : α} : noWorse a b → isOrdered a
  noWorse_of_better {a b : α} : better a b → noWorse a b
  noWorse_of_not_better {a b : α} : isOrdered a → isOrdered b → ¬ better a b → noWorse b a

/-- The smaller element is preferred. -/
theorem preference_lt : Preference (α := α) lt le where
  refl := le_refl
  trans := le_trans
  isOrdered_left := isOrdered_left_of_le
  noWorse_of_better := le_of_lt
  noWorse_of_not_better ha hb h := (not_lt_iff_le ha hb).mp h

/-- The larger element is preferred. -/
theorem preference_gt : Preference (α := α) (fun a b => lt b a) (fun a b => le b a) where
  refl := le_refl
  trans hab hbc := le_trans hbc hab
  isOrdered_left := isOrdered_right_of_le
  noWorse_of_better := le_of_lt
  noWorse_of_not_better ha hb h := (not_lt_iff_le hb ha).mp h

/-- The first element if it is strictly better, the second one otherwise. -/
def prefer (better : α → α → Bool) (x acc : α) : α := if better x acc then x else acc

omit [Element α] in
theorem prefer_eq_or (better : α → α → Bool) (x acc : α) :
    prefer better x acc = x ∨ prefer better x acc = acc := by
  unfold prefer
  split
  · exact Or.inl rfl
  · exact Or.inr rfl

section

variable {better noWorse : α → α → Bool} (hp : Preference better noWorse)

include hp

theorem Preference.prefer_noWorse_right {x acc : α} (hacc : isOrdered acc) :
    noWorse (prefer better x acc) acc := by
  unfold prefer
  split
  · exact hp.noWorse_of_better ‹_›
  · exact hp.refl hacc

theorem Preference.prefer_noWorse_left {x acc : α} (hacc : isOrdered acc) (hx : isOrdered x) :
    noWorse (prefer better x acc) x := by
  unfold prefer
  split
  · exact hp.refl hx
  · exact hp.noWorse_of_not_better hx hacc ‹_›

/-! ### The best of all elements met -/

/-- The value kept after the elements `xs` were met, starting from `init`. -/
structure BestOf (noWorse : α → α → Bool) (init : α) (xs : Multiset α) (acc : α) : Prop where
  ordered : isOrdered acc
  origin : acc = init ∨ acc ∈ xs
  noWorse_init : noWorse acc init
  noWorse_mem : ∀ x ∈ xs, isOrdered x → noWorse acc x

theorem BestOf.start {init : α} (h : isOrdered init) : BestOf noWorse init 0 init where
  ordered := h
  origin := Or.inl rfl
  noWorse_init := hp.refl h
  noWorse_mem x hx := absurd hx (Multiset.notMem_zero x)

/-- Meeting one more element. -/
theorem BestOf.absorb {init acc : α} {xs : Multiset α} (h : BestOf noWorse init xs acc) (x : α) :
    BestOf noWorse init (x ::ₘ xs) (prefer better x acc) where
  ordered := hp.isOrdered_left (hp.prefer_noWorse_right h.ordered)
  origin := by
    rcases prefer_eq_or better x acc with hx | hacc
    · rw [hx]
      exact Or.inr (Multiset.mem_cons_self x xs)
    · rw [hacc]
      exact h.origin.imp_right fun hmem => Multiset.mem_cons_of_mem hmem
  noWorse_init := hp.trans (hp.prefer_noWorse_right h.ordered) h.noWorse_init
  noWorse_mem y hy hord := by
    -- the element just met, or one that the former best is no worse than
    rcases Multiset.mem_cons.mp hy with rfl | hy
    · exact hp.prefer_noWorse_left h.ordered hord
    · exact hp.trans (hp.prefer_noWorse_right h.ordered) (h.noWorse_mem y hy hord)

/-! ### Lane by lane -/

/-- The values kept in the lanes after the elements `xs` were met. Each lane has met only some of
them, but every element was met by some lane. -/
structure BestLanes {width : Nat} (noWorse : α → α → Bool) (init : α) (xs : Multiset α)
    (reg : Register α width) : Prop where
  ordered : ∀ lane, isOrdered (reg.get lane)
  origin : ∀ lane, reg.get lane = init ∨ reg.get lane ∈ xs
  noWorse_init : ∀ lane, noWorse (reg.get lane) init
  noWorse_mem : ∀ x ∈ xs, isOrdered x → ∃ lane, noWorse (reg.get lane) x

omit hp in
/-- The same value in all lanes. -/
theorem BestOf.spread {width : Nat} (hwidth : 0 < width) {init acc : α} {xs : Multiset α}
    (h : BestOf noWorse init xs acc) : BestLanes noWorse init xs (broadcast width acc) := by
  have hlane (lane : Fin width) : (broadcast width acc).get lane = acc :=
    Vector.getElem_replicate lane.isLt
  constructor
  · intro lane
    rw [hlane]
    exact h.ordered
  · intro lane
    rw [hlane]
    exact h.origin
  · intro lane
    rw [hlane]
    exact h.noWorse_init
  · intro x hx hord
    refine ⟨⟨0, hwidth⟩, ?_⟩
    rw [hlane]
    exact h.noWorse_mem x hx hord

/-- Meeting one more register. -/
theorem BestLanes.absorb {width : Nat} {init : α} {xs : Multiset α} {acc : Register α width}
    (h : BestLanes noWorse init xs acc) (reg : Register α width) :
    BestLanes noWorse init ((reg.toList : Multiset α) + xs)
      (Vector.zipWith (prefer better) reg acc) := by
  have hlane (lane : Fin width) : (Vector.zipWith (prefer better) reg acc).get lane
      = prefer better (reg.get lane) (acc.get lane) := Vector.getElem_zipWith lane.isLt
  have hright (lane : Fin width) :=
    hp.prefer_noWorse_right (x := reg.get lane) (h.ordered lane)
  constructor
  · intro lane
    rw [hlane]
    exact hp.isOrdered_left (hright lane)
  · intro lane
    rw [hlane, Multiset.mem_add]
    rcases prefer_eq_or better (reg.get lane) (acc.get lane) with hreg | hacc
    · rw [hreg]
      exact Or.inr (Or.inl (Multiset.mem_coe.mpr (get_mem_toList reg lane)))
    · rw [hacc]
      exact (h.origin lane).imp_right Or.inr
  · intro lane
    rw [hlane]
    exact hp.trans (hright lane) (h.noWorse_init lane)
  · intro x hx hord
    rcases Multiset.mem_add.mp hx with hx | hx
    · obtain ⟨lane, rfl⟩ := exists_lane_of_mem (Multiset.mem_coe.mp hx)
      refine ⟨lane, ?_⟩
      rw [hlane]
      exact hp.prefer_noWorse_left (h.ordered lane) hord
    · obtain ⟨lane, hx⟩ := h.noWorse_mem x hx hord
      refine ⟨lane, ?_⟩
      rw [hlane]
      exact hp.trans (hright lane) hx

/-! ### Combining the lanes -/

omit [Element α] hp in
/-- All lanes combined with an operation, in the order of the lane set. -/
def Lanes.reduceWith (combine : α → α → α) : (lanes : Lanes) → Register α lanes.width → α
  | portable _ width_pos, reg => Scalar.reduce combine reg width_pos
  | avx2, reg => Shuffle.reduce combine reg

/-- The best element of a list. -/
structure IsBest (noWorse : α → α → Bool) (xs : List α) (best : α) : Prop where
  mem : best ∈ xs
  noWorse_mem : ∀ x ∈ xs, noWorse best x

theorem IsBest.ordered {xs : List α} {best : α} (h : IsBest noWorse xs best) :
    isOrdered best :=
  hp.isOrdered_left (h.noWorse_mem best h.mem)

theorem IsBest.singleton {a : α} (h : isOrdered a) : IsBest noWorse [a] a where
  mem := List.mem_singleton_self a
  noWorse_mem x hx := by
    rw [List.mem_singleton.mp hx]
    exact hp.refl h

/-- The preferred one of the best elements of two lists. -/
theorem IsBest.combine {xs ys : List α} {a b : α} (ha : IsBest noWorse xs a)
    (hb : IsBest noWorse ys b) : IsBest noWorse (xs ++ ys) (prefer better a b) where
  mem := by
    rw [List.mem_append]
    rcases prefer_eq_or better a b with h | h
    · rw [h]
      exact Or.inl ha.mem
    · rw [h]
      exact Or.inr hb.mem
  noWorse_mem x hx := by
    rcases List.mem_append.mp hx with hx | hx
    · exact hp.trans (hp.prefer_noWorse_left (hb.ordered hp) (ha.ordered hp))
        (ha.noWorse_mem x hx)
    · exact hp.trans (hp.prefer_noWorse_right (hb.ordered hp)) (hb.noWorse_mem x hx)

omit hp [Element α] in
theorem IsBest.of_perm {xs ys : List α} {best : α} (h : IsBest noWorse xs best)
    (hperm : xs.Perm ys) : IsBest noWorse ys best where
  mem := hperm.mem_iff.mp h.mem
  noWorse_mem x hx := h.noWorse_mem x (hperm.mem_iff.mpr hx)

theorem isBest_foldl {xs ys : List α} {acc : α} (hacc : IsBest noWorse ys acc)
    (hxs : ∀ x ∈ xs, isOrdered x) :
    IsBest noWorse (ys ++ xs) (xs.foldl (fun acc x => prefer better x acc) acc) := by
  -- along the list, with everything met so far in `ys`
  induction xs generalizing ys acc with
  | nil => rwa [List.append_nil, List.foldl_nil]
  | cons x xs ih =>
    have hx := IsBest.singleton hp (hxs x List.mem_cons_self)
    have hstep := ih ((hx.combine hp hacc).of_perm List.perm_append_comm)
      fun y hy => hxs y (List.mem_cons_of_mem x hy)
    rwa [List.append_assoc, List.singleton_append] at hstep

/-- Folding the lanes from the first one on finds the best lane. -/
theorem Scalar.isBest_reduce {width : Nat} (reg : Register α width) (hwidth : 0 < width)
    (h : ∀ x ∈ reg.toList, isOrdered x) :
    IsBest noWorse reg.toList (Scalar.reduce (prefer better) reg hwidth) := by
  have hcons : reg.toList = [reg[0]] ++ reg.toList.drop 1 := by
    rw [List.singleton_append, ← Vector.getElem_toList (by simpa using hwidth),
      List.getElem_cons_drop, List.drop_zero]
  have hfirst := IsBest.singleton hp (h reg[0] (by simp))
  have hrest : ∀ x ∈ reg.toList.drop 1, isOrdered x := fun x hx => h x (List.mem_of_mem_drop hx)
  have hfold := isBest_foldl hp hfirst hrest
  rwa [← hcons] at hfold

/-- Halving the lanes finds the best lane. -/
theorem Shuffle.isBest_reduce (reg : Register α 8) (h : ∀ x ∈ reg.toList, isOrdered x) :
    IsBest noWorse reg.toList (Shuffle.reduce (prefer better) reg) := by
  have hlane (i : Nat) (hi : i < 8) : IsBest noWorse [reg[i]] reg[i] :=
    IsBest.singleton hp (h reg[i] (by simp))
  have hquarter (i : Nat) (hi : i < 2) := IsBest.combine hp
    (IsBest.combine hp (hlane i (by omega)) (hlane (i + 4) (by omega)))
    (IsBest.combine hp (hlane (i + 2) (by omega)) (hlane (i + 6) (by omega)))
  have hall := IsBest.combine hp (hquarter 0 (by decide)) (hquarter 1 (by decide))
  refine hall.of_perm ?_
  -- the halvings meet the lanes in this order
  have hlanes : [(0 : Fin 8), 4, 2, 6, 1, 5, 3, 7].Perm (List.finRange 8) := by decide
  rw [toList_eq_map_finRange]
  exact hlanes.map reg.get

/-- Every lane set finds the best lane. -/
theorem Lanes.isBest_reduceWith (lanes : Lanes) (reg : Register α lanes.width)
    (h : ∀ x ∈ reg.toList, isOrdered x) :
    IsBest noWorse reg.toList (lanes.reduceWith (prefer better) reg) := by
  cases lanes with
  | portable width width_pos => exact Scalar.isBest_reduce hp reg width_pos h
  | avx2 => exact Shuffle.isBest_reduce hp reg h

/-- The best lane is the best of all elements met. -/
theorem BestLanes.best {width : Nat} {init best : α} {xs : Multiset α} {reg : Register α width}
    (h : BestLanes noWorse init xs reg) (hbest : IsBest noWorse reg.toList best) :
    BestOf noWorse init xs best := by
  obtain ⟨lane, hlane⟩ := exists_lane_of_mem hbest.mem
  constructor
  · exact hbest.ordered hp
  · rw [← hlane]
    exact h.origin lane
  · rw [← hlane]
    exact h.noWorse_init lane
  · intro x hx hord
    obtain ⟨other, hother⟩ := h.noWorse_mem x hx hord
    exact hp.trans (hbest.noWorse_mem _ (get_mem_toList reg other)) hother

theorem BestLanes.reduceWith (lanes : Lanes) {init : α} {xs : Multiset α}
    {reg : Register α lanes.width} (h : BestLanes noWorse init xs reg) :
    BestOf noWorse init xs (lanes.reduceWith (prefer better) reg) := by
  refine h.best hp (lanes.isBest_reduceWith hp reg fun x hx => ?_)
  obtain ⟨lane, rfl⟩ := exists_lane_of_mem hx
  exact h.ordered lane

end

/-! ### Both extremes -/

namespace Extremes

/-- The extremes kept after the elements `xs` were met, starting from `init`. Nothing is known of a
side that started from an unordered value. -/
structure Of (seen init : Extremes α) (xs : Multiset α) : Prop where
  smallest : isOrdered init.smallest → BestOf le init.smallest xs seen.smallest
  biggest : isOrdered init.biggest → BestOf (fun a b => le b a) init.biggest xs seen.biggest

/-- The extremes kept in the lanes after the elements `xs` were met, starting from `init`. -/
structure OfLanes {width : Nat} (seen : Extremes (Register α width)) (init : Extremes α)
    (xs : Multiset α) : Prop where
  smallest : isOrdered init.smallest → BestLanes le init.smallest xs seen.smallest
  biggest : isOrdered init.biggest → BestLanes (fun a b => le b a) init.biggest xs seen.biggest

theorem Of.start (init : Extremes α) : init.Of init 0 :=
  ⟨.start preference_lt, .start preference_gt⟩

theorem Of.absorb {init seen : Extremes α} {xs : Multiset α} (h : seen.Of init xs) (x : α) :
    (seen.absorb x).Of init (x ::ₘ xs) :=
  ⟨fun hinit => (h.smallest hinit).absorb preference_lt x,
    fun hinit => (h.biggest hinit).absorb preference_gt x⟩

variable {init seen : Extremes α} {xs : Multiset α} (lanes : Lanes)

theorem Of.spread (h : seen.Of init xs) : (seen.spread lanes.width).OfLanes init xs :=
  ⟨fun hinit => (h.smallest hinit).spread lanes.width_pos,
    fun hinit => (h.biggest hinit).spread lanes.width_pos⟩

variable {kept : Extremes (Register α lanes.width)}

theorem OfLanes.absorbLanes (h : kept.OfLanes init xs) (reg : Register α lanes.width) :
    (kept.absorbLanes lanes reg).OfLanes init ((reg.toList : Multiset α) + xs) := by
  have hsmallest (hinit) := (h.smallest hinit).absorb preference_lt reg
  have hbiggest (hinit) := (h.biggest hinit).absorb preference_gt reg
  cases lanes with
  | portable width width_pos => exact ⟨hsmallest, hbiggest⟩
  | avx2 => exact ⟨hsmallest, hbiggest⟩

theorem OfLanes.reduce (h : kept.OfLanes init xs) : (kept.reduce lanes).Of init xs := by
  have hsmallest (hinit) := (h.smallest hinit).reduceWith preference_lt lanes
  have hbiggest (hinit) := (h.biggest hinit).reduceWith preference_gt lanes
  cases lanes with
  | portable width width_pos => exact ⟨hsmallest, hbiggest⟩
  | avx2 => exact ⟨hsmallest, hbiggest⟩

end Extremes

end VectorizedSort
