import Mathlib.Logic.Relation
import VectorizedSort.Proofs.Sort.Whole

/-! # Insertion sort is stable between barriers

An unordered element compares with nothing, so no hole moves past it. It stays where it is, as a
barrier between the stretches of ordered elements on either side. Filling a hole is a chain of
exchanges of neighbours, the second of which is strictly below the first. Such exchanges stay
inside of the stretches and keep the order of elements that compare equal. When the last element is
inserted, no exchange is left to make, and so every stretch is sorted. Every entry point sorts short
arrays in this way. -/

namespace VectorizedSort

open Element

variable {α : Type} [Element α]

/-! ### Stretches -/

/-- `[lo, hi)` is a stretch of ordered elements that cannot be made longer on either side. -/
structure IsStretch (v : Array α) (lo hi : Nat) : Prop where
  le : lo ≤ hi
  inside : hi ≤ v.size
  ordered : ∀ (i : Nat) (_ : i < v.size), lo ≤ i → i < hi → isOrdered v[i]
  before : ∀ (i : Nat) (_ : i < v.size), i + 1 = lo → ¬ isOrdered v[i]
  behind : ∀ _ : hi < v.size, ¬ isOrdered v[hi]

/-- To the left of an ordered element, its stretch starts somewhere. -/
theorem exists_stretch_start {v : Array α} {i : Nat} (hi : i < v.size) (h : isOrdered v[i]) :
    ∃ lo ≤ i, (∀ (k : Nat) (_ : k < v.size), lo ≤ k → k ≤ i → isOrdered v[k]) ∧
      ∀ (k : Nat) (_ : k < v.size), k + 1 = lo → ¬ isOrdered v[k] := by
  induction i with
  | zero =>
    refine ⟨0, Nat.le_refl 0, fun k hk _ hle => ?_, fun k _ heq => absurd heq (Nat.succ_ne_zero k)⟩
    obtain rfl := Nat.le_zero.mp hle
    exact h
  | succ i ih =>
    by_cases hprev : isOrdered v[i]
    · obtain ⟨lo, hlo, hall, hbefore⟩ := ih (Nat.lt_of_succ_lt hi) hprev
      refine ⟨lo, Nat.le_succ_of_le hlo, fun k hk hge hle => ?_, hbefore⟩
      rcases Nat.le_succ_iff.mp hle with hle | rfl
      · exact hall k hk hge hle
      · exact h
    · refine ⟨i + 1, Nat.le_refl (i + 1), fun k hk hge hle => ?_, fun k hk heq => ?_⟩
      · obtain rfl := Nat.le_antisymm hle hge
        exact h
      · obtain rfl := Nat.succ.inj heq
        exact hprev

/-- To the right of an ordered element, its stretch ends somewhere. -/
theorem exists_stretch_end {v : Array α} {i : Nat} (hi : i < v.size) (h : isOrdered v[i]) :
    ∃ hi, i < hi ∧ hi ≤ v.size ∧
      (∀ (k : Nat) (_ : k < v.size), i ≤ k → k < hi → isOrdered v[k]) ∧
      ∀ _ : hi < v.size, ¬ isOrdered v[hi] := by
  by_cases hnext : ∃ hin : i + 1 < v.size, isOrdered v[i + 1]
  · obtain ⟨hin, hord⟩ := hnext
    obtain ⟨stop, hlt, hle, hall, hbehind⟩ := exists_stretch_end hin hord
    refine ⟨stop, Nat.lt_of_succ_lt hlt, hle, fun k hk hge hstop => ?_, hbehind⟩
    rcases Nat.lt_or_eq_of_le hge with hgt | rfl
    · exact hall k hk hgt hstop
    · exact h
  · refine ⟨i + 1, Nat.lt_succ_self i, hi, fun k hk hge hlt => ?_, fun hin hord => ?_⟩
    · obtain rfl := Nat.le_antisymm hge (Nat.le_of_lt_succ hlt)
      exact h
    · exact hnext ⟨hin, hord⟩
termination_by v.size - i

/-- Every ordered element stands in a stretch. -/
theorem exists_isStretch {v : Array α} {i : Nat} (hi : i < v.size) (h : isOrdered v[i]) :
    ∃ lo hi, IsStretch v lo hi ∧ lo ≤ i ∧ i < hi := by
  obtain ⟨lo, hlo, hleft, hbefore⟩ := exists_stretch_start hi h
  obtain ⟨stop, hlt, hstop, hright, hbehind⟩ := exists_stretch_end hi h
  refine ⟨lo, stop, ⟨hlo.trans (Nat.le_of_lt hlt), hstop, fun k hk hge hin => ?_, hbefore, hbehind⟩,
    hlo, hlt⟩
  rcases Nat.le_total k i with hle | hle
  · exact hleft k hk hge hle
  · exact hright k hk hle hin

/-- Arrays that are ordered in the same slots have the same stretches. -/
theorem IsStretch.congr {v w : Array α} {lo hi : Nat} (h : IsStretch v lo hi)
    (hsize : w.size = v.size)
    (hsame : ∀ (i : Nat) (hw : i < w.size) (hv : i < v.size), isOrdered w[i] = isOrdered v[i]) :
    IsStretch w lo hi where
  le := h.le
  inside := hsize ▸ h.inside
  ordered i hi hge hlt := by
    rw [hsame i hi (hsize ▸ hi)]
    exact h.ordered i _ hge hlt
  before i hi heq := by
    rw [hsame i hi (hsize ▸ hi)]
    exact h.before i _ heq
  behind hin := by
    rw [hsame _ hin (hsize ▸ hin)]
    exact h.behind _

/-! ### Stable order -/

/-- `w` holds the elements of `v`, and those that compare equal stand in the same order. -/
structure Reordered (v w : Array α) : Prop where
  perm : w.Perm v
  ties : ∀ x, w.toList.filter (eqv x) = v.toList.filter (eqv x)

/-- `w` is the stable sort of `v`. -/
structure StablySorted (v w : Array α) : Prop extends Reordered v w where
  nondecreasing : Nondecreasing w

/-- In `w` every unordered element of `v` stands where it stood, and every stretch of `v` is
replaced by its stable sort. -/
structure SortedBetweenBarriers (v w : Array α) : Prop where
  size_eq : w.size = v.size
  barrier : ∀ (i : Nat) (hw : i < w.size) (hv : i < v.size), ¬ isOrdered v[i] → w[i] = v[i]
  stretch : ∀ lo hi, IsStretch v lo hi → StablySorted (slice v lo hi) (slice w lo hi)

theorem Reordered.refl (v : Array α) : Reordered v v := ⟨.rfl, fun _ => rfl⟩

theorem Reordered.trans {u v w : Array α} (h : Reordered u v) (h' : Reordered v w) :
    Reordered u w :=
  ⟨h'.perm.trans h.perm, fun x => (h'.ties x).trans (h.ties x)⟩

/-- Elements that do not compare equal may change places. -/
theorem Reordered.exchange {a b : α} (h : lt b a) (before behind : Array α) :
    Reordered (before ++ #[a, b] ++ behind) (before ++ #[b, a] ++ behind) where
  perm := by
    rw [Array.perm_iff_toList_perm]
    simp only [Array.toList_append]
    exact ((List.Perm.swap a b []).append_left _).append_right _
  ties x := by
    have hone : ¬ (eqv x a ∧ eqv x b) := by
      rintro ⟨ha, hb⟩
      exact not_le_of_lt h (le_trans (eqv_iff_le_le.mp ha).2 (eqv_iff_le_le.mp hb).1)
    have hpair : [b, a].filter (eqv x) = [a, b].filter (eqv x) := by
      cases ha : eqv x a <;> cases hb : eqv x b <;> simp_all
    simp only [Array.toList_append, List.filter_append, hpair]

/-! ### The stable sort is unique -/

theorem Nondecreasing.pairwise {v : Array α} (h : Nondecreasing v) :
    v.toList.Pairwise fun a b => le a b := by
  have htrans : Trans (fun a b : α => (le a b : Prop)) (fun a b => le a b) (fun a b => le a b) :=
    ⟨le_trans⟩
  rw [← List.isChain_iff_pairwise, List.isChain_iff_getElem]
  exact h

/-- Lists in order with the same elements, in the same order where these compare equal. -/
theorem eq_of_pairwise_of_ties {xs ys : List α} (hxs : xs.Pairwise fun a b => le a b)
    (hys : ys.Pairwise fun a b => le a b) (hord : ∀ x ∈ xs, isOrdered x) (hperm : xs.Perm ys)
    (hties : ∀ x, xs.filter (eqv x) = ys.filter (eqv x)) : xs = ys := by
  induction xs generalizing ys with
  | nil => exact (List.nil_perm.mp hperm).symm
  | cons x xs ih =>
    cases ys with
    | nil => exact absurd hperm.length_eq (Nat.succ_ne_zero _)
    | cons y ys =>
      have hx : le x x := le_refl (hord x List.mem_cons_self)
      have hy : le y y := le_refl (hord y (hperm.mem_iff.mpr List.mem_cons_self))
      obtain ⟨hx_le, hxs_tail⟩ := List.pairwise_cons.mp hxs
      obtain ⟨hy_le, hys_tail⟩ := List.pairwise_cons.mp hys
      -- either head is a least element of both lists, so that both are the first of one tie
      have hxy : le x y := by
        rcases List.mem_cons.mp (hperm.mem_iff.mpr List.mem_cons_self) with rfl | hmem
        · exact hx
        · exact hx_le y hmem
      have hyx : le y x := by
        rcases List.mem_cons.mp (hperm.mem_iff.mp List.mem_cons_self) with rfl | hmem
        · exact hy
        · exact hy_le x hmem
      have heq : x = y := by
        have htie := hties x
        rw [List.filter_cons_of_pos (eqv_iff_le_le.mpr ⟨hx, hx⟩),
          List.filter_cons_of_pos (eqv_iff_le_le.mpr ⟨hxy, hyx⟩)] at htie
        exact (List.cons.inj htie).1
      subst heq
      congr 1
      refine ih hxs_tail hys_tail (fun z hz => hord z (List.mem_cons_of_mem x hz))
        ((List.perm_cons x).mp hperm) fun z => ?_
      have htie := hties z
      rw [List.filter_cons, List.filter_cons] at htie
      split at htie
      · exact (List.cons.inj htie).2
      · exact htie

theorem StablySorted.unique {v w w' : Array α} (hv : AllOrdered v) (h : StablySorted v w)
    (h' : StablySorted v w') : w = w' := by
  refine Array.toList_inj.mp (eq_of_pairwise_of_ties h.nondecreasing.pairwise
    h'.nondecreasing.pairwise (fun x hx => ?_) ?_ fun x => (h.ties x).trans (h'.ties x).symm)
  · exact hv.of_perm h.perm x (Array.mem_toList_iff.mp hx)
  · exact Array.perm_iff_toList_perm.mp (h.perm.trans h'.perm.symm)

/-- Only one array is sorted between the barriers of another. -/
theorem SortedBetweenBarriers.unique {v w w' : Array α} (h : SortedBetweenBarriers v w)
    (h' : SortedBetweenBarriers v w') : w = w' := by
  refine Array.ext (h.size_eq.trans h'.size_eq.symm) fun i hi hi' => ?_
  have hv : i < v.size := h.size_eq ▸ hi
  by_cases hord : isOrdered v[i]
  · obtain ⟨lo, stop, hstretch, hlo, hstop⟩ := exists_isStretch hv hord
    have hordered : AllOrdered (slice v lo stop) := by
      intro x hx
      obtain ⟨k, hge, hlt, hk⟩ :=
        mem_contents.mp (Multiset.mem_coe.mpr (Array.mem_toList_iff.mpr hx))
      obtain ⟨hsize, rfl⟩ := Array.getElem?_eq_some_iff.mp hk
      exact hstretch.ordered k hsize hge hlt
    have hslice := (h.stretch lo stop hstretch).unique hordered (h'.stretch lo stop hstretch)
    -- the slot is read in the slice of its stretch
    have hget : (slice w lo stop)[i - lo]? = (slice w' lo stop)[i - lo]? := by rw [hslice]
    rw [getElem?_slice, getElem?_slice, Nat.add_sub_cancel' hlo, if_pos hstop, if_pos hstop,
      Array.getElem?_eq_getElem hi, Array.getElem?_eq_getElem hi'] at hget
    exact Option.some_inj.mp hget
  · rw [h.barrier i hi hv hord, h'.barrier i hi' hv hord]

/-! ### Exchanges of neighbours -/

/-- Two neighbours, the second of which is strictly below the first, change places. -/
def Exchanged (v w : Array α) : Prop :=
  ∃ (j : Nat) (_ : j < v.size) (_ : j + 1 < v.size), lt v[j + 1] v[j] ∧ w = v.swap j (j + 1)

/-- `w` comes from `v` by moving elements inside of their stretches, and no two that compare equal
past each other. -/
structure MovedInside (v w : Array α) : Prop where
  size_eq : w.size = v.size
  isOrdered_eq : ∀ (i : Nat) (hw : i < w.size) (hv : i < v.size), isOrdered w[i] = isOrdered v[i]
  barrier : ∀ (i : Nat) (hw : i < w.size) (hv : i < v.size), ¬ isOrdered v[i] → w[i] = v[i]
  stretch : ∀ lo hi, IsStretch v lo hi → Reordered (slice v lo hi) (slice w lo hi)

theorem MovedInside.refl (v : Array α) : MovedInside v v :=
  ⟨rfl, fun _ _ _ => rfl, fun _ _ _ _ => rfl, fun _ _ _ => .refl _⟩

theorem MovedInside.trans {u v w : Array α} (h : MovedInside u v) (h' : MovedInside v w) :
    MovedInside u w where
  size_eq := h'.size_eq.trans h.size_eq
  isOrdered_eq i hw hu := by
    have hv : i < v.size := h.size_eq ▸ hu
    rw [h'.isOrdered_eq i hw hv, h.isOrdered_eq i hv hu]
  barrier i hw hu hord := by
    have hv : i < v.size := h.size_eq ▸ hu
    rw [h'.barrier i hw hv (by rwa [h.isOrdered_eq i hv hu]), h.barrier i hv hu hord]
  stretch lo hi hstretch :=
    (h.stretch lo hi hstretch).trans (h'.stretch lo hi (hstretch.congr h.size_eq h.isOrdered_eq))

omit [Element α] in
/-- The slice of two neighbours. -/
theorem slice_two (v : Array α) {j : Nat} (hj : j < v.size) (h : j + 1 < v.size) :
    slice v j (j + 2) = #[v[j], v[j + 1]] := by
  rw [← slice_append_slice v (Nat.le_succ j) (Nat.le_succ (j + 1)), slice_succ v h, slice_succ v hj]
  rfl

omit [Element α] in
/-- A slice around two neighbours, with the rest of it on either side. -/
theorem slice_around (v : Array α) {lo j hi : Nat} (hj : j < v.size) (h : j + 1 < v.size)
    (hlo : lo ≤ j) (hhi : j + 1 < hi) :
    slice v lo hi = slice v lo j ++ #[v[j], v[j + 1]] ++ slice v (j + 2) hi := by
  rw [← slice_two v hj h, slice_append_slice v hlo (Nat.le_add_right j 2),
    slice_append_slice v (by omega) hhi]

/-- Both neighbours are ordered, so the exchange takes place inside of a stretch. -/
theorem Exchanged.movedInside {v w : Array α} (h : Exchanged v w) : MovedInside v w := by
  obtain ⟨j, hj, hnext, hlt, rfl⟩ := h
  have hfirst : isOrdered v[j] := isOrdered_right_of_lt hlt
  have hsecond : isOrdered v[j + 1] := isOrdered_left_of_le (le_of_lt hlt)
  have hget (i : Nat) (hw : i < (v.swap j (j + 1)).size) (hv : i < v.size) :
      (v.swap j (j + 1))[i] = if i = j then v[j + 1] else if i = j + 1 then v[j] else v[i] :=
    Array.getElem_swap ..
  have hother (i : Nat) (h : i ≠ j) (h' : i ≠ j + 1) : (v.swap j (j + 1))[i]? = v[i]? := by
    rw [Array.getElem?_swap, if_neg (Ne.symm h'), if_neg (Ne.symm h)]
  refine ⟨Array.size_swap, fun i hw hv => ?_, fun i hw hv hord => ?_, fun lo hi hstretch => ?_⟩
  · -- both slots hold an ordered element before and after
    rw [hget i hw hv]
    split
    · subst i
      rw [hfirst, hsecond]
    · split
      · subst i
        rw [hfirst, hsecond]
      · rfl
  · rw [hget i hw hv, if_neg, if_neg]
    · rintro rfl
      exact hord hsecond
    · rintro rfl
      exact hord hfirst
  · -- the two neighbours stand in one stretch, which is this one or another
    by_cases hin : lo ≤ j ∧ j + 1 < hi
    · obtain ⟨hlo, hhi⟩ := hin
      have hj_swap : j < (v.swap j (j + 1)).size := by rwa [Array.size_swap]
      have hnext_swap : j + 1 < (v.swap j (j + 1)).size := by rwa [Array.size_swap]
      rw [slice_around v hj hnext hlo hhi, slice_around _ hj_swap hnext_swap hlo hhi,
        Array.getElem_swap_left, Array.getElem_swap_right,
        slice_congr fun i _ hlt => hother i (by omega) (by omega),
        slice_congr fun i hge _ => hother i (by omega) (by omega)]
      exact .exchange hlt _ _
    · -- an end between the two would stand beside an ordered element
      have hstart : j + 1 ≠ lo := fun heq => hstretch.before j hj heq hfirst
      have hend : hi ≠ j + 1 := by
        rintro rfl
        exact hstretch.behind hnext hsecond
      rw [slice_congr fun i _ _ => hother i (by omega) (by omega)]
      exact .refl _

theorem movedInside_of_exchanges {v w : Array α} (h : Relation.ReflTransGen Exchanged v w) :
    MovedInside v w := by
  induction h with
  | refl => exact .refl v
  | tail _ hlast ih => exact ih.trans hlast.movedInside

/-! ### Descents -/

/-- None of the first `i` elements is strictly below the one before it. -/
def NoDescent (v : Array α) (i : Nat) : Prop :=
  ∀ (k : Nat) (_ : k < v.size) (_ : k + 1 < v.size), k + 1 < i → ¬ lt v[k + 1] v[k]

/-- Elements that have moved inside of their stretches until no descent is left are sorted between
the barriers. -/
theorem MovedInside.sorted {v w : Array α} (h : MovedInside v w) (hw : NoDescent w w.size) :
    SortedBetweenBarriers v w where
  size_eq := h.size_eq
  barrier := h.barrier
  stretch lo hi hstretch := by
    refine ⟨h.stretch lo hi hstretch, fun i hi' => ?_⟩
    have hsame := hstretch.congr h.size_eq h.isOrdered_eq
    rw [size_slice w hsame.inside] at hi'
    have hinside := hsame.inside
    simp only [slice, Array.getElem_extract]
    rw [← not_lt_iff_le (hsame.ordered _ (by omega) (by omega) (by omega))
      (hsame.ordered _ (by omega) (by omega) (by omega))]
    exact hw (lo + i) (by omega) (by omega) (by omega)

/-- A prefix whose stretches are in order has no descents, since both sides of a descent stand in
one stretch. -/
theorem noDescent_of_stretches {v : Array α} {offset : Nat} (hle : offset ≤ v.size)
    (h : ∀ lo hi, IsStretch (slice v 0 offset) lo hi → Nondecreasing (slice v lo hi)) :
    NoDescent v offset := by
  intro k hk hnext hoffset hlt
  have hsize : (slice v 0 offset).size = offset := size_slice v hle
  have hget (i : Nat) (hi : i < (slice v 0 offset).size) (hv : i < v.size) :
      (slice v 0 offset)[i] = v[i] := by
    simp only [slice, Array.getElem_extract, Nat.zero_add]
  have hprefix : k < (slice v 0 offset).size := by omega
  have hfirst : isOrdered (slice v 0 offset)[k] := by
    rw [hget k hprefix hk]
    exact isOrdered_right_of_lt hlt
  obtain ⟨lo, hi, hstretch, hlo, hhi⟩ := exists_isStretch hprefix hfirst
  have hinside : hi ≤ offset := hsize ▸ hstretch.inside
  -- a stretch that ended between the two would have an ordered element behind it
  have hsecond : k + 1 < hi := by
    refine Nat.lt_of_le_of_ne hhi ?_
    rintro rfl
    refine hstretch.behind (by omega) ?_
    rw [hget (k + 1) (by omega) hnext]
    exact isOrdered_left_of_le (le_of_lt hlt)
  have hstep := h lo hi hstretch (k - lo) (by rw [size_slice v (hinside.trans hle)]; omega)
  simp only [slice, Array.getElem_extract, ← Nat.add_assoc, Nat.add_sub_cancel' hlo] at hstep
  exact not_le_of_lt hlt hstep

/-! ### Insertion by exchanges -/

section Slots

variable {n : Nat}

/-- Moving the hole exchanges what is to fill it with one neighbour after another. -/
theorem fillHole_exchanges (x : α) (hole : Nat) (v : Vector α n) (h : hole < n) :
    Relation.ReflTransGen Exchanged (v.set hole x).toArray (fillHole x hole v h).toArray := by
  induction hole generalizing v with
  | zero => exact .refl
  | succ j ih =>
    have hj : j < n := Nat.lt_of_succ_lt h
    rw [fillHole]
    split
    · rename_i hlt
      have hsize : (v.set (j + 1) x).toArray.size = n := Vector.size_toArray _
      -- this exchange comes first, those further to the left follow
      refine .head ⟨j, by rwa [hsize], by rwa [hsize], ?_, ?_⟩ (ih (v.set (j + 1) v[j]) hj)
      · have hhole : (v.set (j + 1) x)[j + 1] = x := Vector.getElem_set_self h
        have hprev : (v.set (j + 1) x)[j] = v[j] :=
          Vector.getElem_set_ne h hj (Nat.succ_ne_self j)
        rwa [Vector.getElem_toArray, Vector.getElem_toArray, hhole, hprev]
      · rw [set_set_eq_swap x v hj h, Vector.toArray_swap]
    · exact .refl

theorem insertFrom_exchanges (v : Vector α n) (i : Nat) :
    Relation.ReflTransGen Exchanged v.toArray (insertFrom v i).toArray := by
  fun_induction insertFrom v i with
  | case1 v i h ih =>
    have hfill := fillHole_exchanges v[i] i v h
    rw [Vector.set_getElem_self] at hfill
    exact hfill.trans ih
  | case2 v i h => exact .refl

/-- Inserting an element into a prefix without descents leaves a longer one without descents. -/
theorem Filled.noDescent {v w : Vector α n} {i stop : Nat} (hi : i < n)
    (h : Filled v[i] i stop v w) (hv : NoDescent v.toArray i) : NoDescent w.toArray (i + 1) := by
  obtain ⟨hle, hbelow, hat, hmoved, -, hpassed, hstopped⟩ := h
  intro k hk hnext hki
  rw [Vector.size_toArray] at hk hnext
  have hold (k : Nat) (hnext : k + 1 < n) (hki : k + 1 < i) : ¬ lt v[k + 1] v[k] :=
    hv k (by rw [Vector.size_toArray]; omega) (by rwa [Vector.size_toArray]) hki
  rw [Vector.getElem_toArray, Vector.getElem_toArray]
  -- the pair is before, across or behind the place where the element was inserted
  rcases Nat.lt_trichotomy (k + 1) stop with hlt | heq | hgt
  · rw [hbelow k hk (by omega), hbelow (k + 1) hnext hlt]
    exact hold k hnext (by omega)
  · subst heq
    rw [hbelow k hk (Nat.lt_succ_self k), hat hnext]
    exact hstopped k hk rfl
  · rw [hmoved k hnext (by omega) (by omega)]
    rcases Nat.lt_or_eq_of_le (Nat.le_of_lt_succ hgt) with hlt | rfl
    · obtain ⟨k, rfl⟩ : ∃ m, k = m + 1 := ⟨k - 1, by omega⟩
      rw [hmoved k hk (by omega) (by omega)]
      exact hold k hk (by omega)
    · rw [hat hk]
      exact fun hback => not_le_of_lt (hpassed stop hk (Nat.le_refl stop) (by omega))
        (le_of_lt hback)

theorem insertFrom_noDescent (v : Vector α n) (i : Nat) (h : NoDescent v.toArray i) :
    NoDescent (insertFrom v i).toArray n := by
  fun_induction insertFrom v i with
  | case1 v i hi ih =>
    obtain ⟨stop, hstop⟩ := fillHole_filled v[i] i v hi
    exact ih (hstop.noDescent hi h)
  | case2 v i hi =>
    intro k hk hnext _
    rw [Vector.size_toArray] at hnext
    exact h k hk _ (by omega)

end Slots

/-! ### The sort of short arrays -/

/-- From a prefix without descents on, insertion leaves no descent. -/
theorem insertionSort_of_noDescent {v : Array α} {offset : Nat} (hpos : offset ≠ 0)
    (hle : offset ≤ v.size) (h : NoDescent v offset) :
    ∃ w, insertionSort v offset = .ok w ∧ SortedBetweenBarriers v w ∧ NoDescent w w.size := by
  have hdone : NoDescent (insertFrom v.toVector offset).toArray
      (insertFrom v.toVector offset).toArray.size := by
    rw [Vector.size_toArray]
    exact insertFrom_noDescent v.toVector offset h
  have hmoved := movedInside_of_exchanges (insertFrom_exchanges v.toVector offset)
  rw [insertionSort, if_pos ⟨hpos, hle⟩]
  exact ⟨_, rfl, hmoved.sorted hdone, hdone⟩

/-- On every processor, every entry point answers `v` with `w`, whatever the backend or lane set. -/
structure AlwaysSortedTo (v w : Array α) : Prop where
  onSelected : ∀ host : Host, ∃ log, sort host v = .ok ⟨w, log⟩
  onBackend : ∀ (cpu : Cpu) (backend : Backend), ∃ log, sortOn cpu backend v = .ok ⟨w, log⟩
  onLanes : ∀ (cpu : Cpu) (lanes : Lanes), cpu.supports lanes.backend →
    sortWith cpu lanes v = .ok w

theorem AlwaysSortedTo.of_sortArray {v w : Array α} (h : ∀ lanes, sortArray lanes v = .ok w) :
    AlwaysSortedTo v w := by
  have hbackend (cpu : Cpu) (backend : Backend) : ∃ log, sortOn cpu backend v = .ok ⟨w, log⟩ := by
    rw [sortOn, h]
    exact ⟨_, rfl⟩
  refine ⟨fun host => hbackend host.cpu host.selected, hbackend, fun cpu lanes hcpu => ?_⟩
  rw [sortWith, if_pos hcpu, h]

/-- No lane set is asked for to sort a short array, and nothing but descents moves. -/
theorem sortArray_of_short {v : Array α} (h : v.size ≤ insertionThreshold) :
    ∃ w, (∀ lanes, sortArray lanes v = .ok w) ∧ SortedBetweenBarriers v w ∧
      NoDescent w w.size := by
  by_cases htwo : 2 ≤ v.size
  · obtain ⟨w, hok, hw⟩ := insertionSort_of_noDescent Nat.one_ne_zero (Nat.le_of_succ_le htwo)
      (v := v) fun k _ _ hk => absurd hk (by omega)
    refine ⟨w, fun lanes => ?_, hw⟩
    rw [sortArray, if_pos h, if_pos htwo, hok]
  · have hnone : NoDescent v v.size := fun k _ hnext => absurd hnext (by omega)
    refine ⟨v, fun lanes => ?_, (MovedInside.refl v).sorted hnone, hnone⟩
    rw [sortArray, if_pos h, if_neg htwo]

/-- If the stretches of the first `offset` elements are in order, inserting the others leaves
every unordered element in its place and replaces every stretch of the array by its stable sort,
which decides the whole array. Every entry point sorts an array of at most 64 elements in this way,
with the same answer on every backend, and answers a sorted one with itself. -/
theorem insertionSort_between_barriers (v : Array α) :
    (∀ offset, offset ≠ 0 → offset ≤ v.size →
      (∀ lo hi, IsStretch (slice v 0 offset) lo hi → Nondecreasing (slice v lo hi)) →
      ∃ w, insertionSort v offset = .ok w ∧ SortedBetweenBarriers v w ∧
        ∀ u, SortedBetweenBarriers v u → u = w) ∧
    (v.size ≤ 64 →
      ∃ w, SortedBetweenBarriers v w ∧ AlwaysSortedTo v w ∧ AlwaysSortedTo w w) := by
  constructor
  · intro offset hpos hle hsorted
    obtain ⟨w, hok, hw, -⟩ :=
      insertionSort_of_noDescent hpos hle (noDescent_of_stretches hle hsorted)
    exact ⟨w, hok, hw, fun u hu => hu.unique hw⟩
  · intro hshort
    obtain ⟨w, hok, hw, hdone⟩ := sortArray_of_short hshort
    -- sorting once more can only answer with the array itself
    obtain ⟨u, hok', hu, -⟩ := sortArray_of_short (v := w) (hw.size_eq ▸ hshort)
    obtain rfl := hu.unique ((MovedInside.refl w).sorted hdone)
    exact ⟨u, hw, .of_sortArray hok, .of_sortArray hok'⟩

/-- A NaN with a payload, and a stretch behind it in which a negative zero is inserted behind a
positive one. -/
theorem insertionSort_between_barriers_of_zeros :
    let v : Array Binary32 := #[⟨0x3f800000⟩, ⟨0x7fc00001⟩, ⟨0⟩, ⟨0x40000000⟩, ⟨0x80000000⟩]
    (∀ lo hi, IsStretch (slice v 0 4) lo hi → Nondecreasing (slice v lo hi)) ∧
      (∃ w, insertionSort v 4 = .ok w ∧ SortedBetweenBarriers v w) ∧
      ∃ w, SortedBetweenBarriers v w ∧ AlwaysSortedTo v w ∧ AlwaysSortedTo w w := by
  intro v
  have hsorted (lo hi : Nat) (h : IsStretch (slice v 0 4) lo hi) :
      Nondecreasing (slice v lo hi) := by
    have hinside : hi ≤ 4 := h.inside
    have hsize : (slice v lo hi).size = hi - lo := size_slice v (hinside.trans (by decide))
    have hnan : ¬ (lo ≤ 1 ∧ 1 < hi) := by
      rintro ⟨hlo, hhi⟩
      exact absurd (h.ordered 1 (by decide) hlo hhi) (by decide)
    intro i hi'
    -- only the stretch behind the NaN has two elements
    obtain ⟨rfl, rfl, rfl⟩ : lo = 2 ∧ hi = 4 ∧ i = 0 := by omega
    show (le (⟨0⟩ : Binary32) ⟨0x40000000⟩ : Prop)
    decide
  obtain ⟨hinsert, hshort⟩ := insertionSort_between_barriers v
  obtain ⟨w, hok, hw, -⟩ := hinsert 4 (by decide) (by decide) hsorted
  exact ⟨hsorted, ⟨w, hok, hw⟩, hshort (by decide)⟩

end VectorizedSort
