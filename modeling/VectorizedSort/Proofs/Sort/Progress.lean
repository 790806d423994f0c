import VectorizedSort.Proofs.Sort.Whole

/-! # What a level leaves to sort

One iteration of the quicksort, seen from the ranges that it pushes. A slot of the treated range
that no pushed range covers is done, also among unordered elements: no element of the range stands
on the wrong side of it. Around an ordered pivot the pushed ranges are shorter than the treated one
and not empty, so among ordered elements it is not the levels that end the loop. -/

namespace VectorizedSort

open Element

variable {α : Type} [Element α]

/-- Two slots stand in the wrong order if the element of the later one is below that of the earlier
one. -/
def Inverted (v : Array α) (i j : Nat) : Prop :=
  ∃ (hi : i < v.size) (hj : j < v.size), i < j ∧ lt v[j] v[i]

namespace Level

/-- A slot that neither of the two sides covers that are left to sort. -/
structure Done (level : Level α) (i : Nat) : Prop where
  boundary_le : level.sortsLeft = true → level.boundary ≤ i
  lt_rightStart : level.sortsRight = true → i < level.rightStart

/-- How a level shrinks a range of the given size: no side that is left to sort is empty or the whole
range. -/
structure Shrinks (size : Nat) (level : Level α) : Prop where
  boundary_pos : level.sortsLeft = true → 0 < level.boundary
  boundary_lt : level.boundary < size
  rightStart_pos : level.sortsRight = true → 0 < level.rightStart
  rightStart_lt : level.sortsRight = true → level.rightStart < size

namespace Sound

variable {range : Array α} {level : Level α} (hlevel : level.Sound range)

include hlevel

/-! ### Slots that are done -/

/-- A slot lies behind the boundary exactly if its element is at least the pivot. -/
theorem pivot_le_iff {i : Nat} (hi : i < level.items.size) :
    le level.pivot level.items[i] ↔ level.boundary ≤ i := by
  constructor
  · intro hle
    by_contra hlt
    exact forall_mem_contents.mp hlevel.left i hi (Nat.zero_le i) (Nat.lt_of_not_le hlt) hle
  · intro hle
    exact hlevel.pivot_le (mem_contents.mpr ⟨i, hle, hi, Array.getElem?_eq_getElem hi⟩)

/-- From the boundary up to a slot that is done, every element compares equal to the pivot. -/
theorem eqv_of_done {i j : Nat} (hi : level.Done i) (hj : j < level.items.size)
    (hboundary : level.boundary ≤ j) (hji : j ≤ i) : eqv level.pivot level.items[j] := by
  by_cases hsorts : level.sortsRight = true
  · have hstart := hi.lt_rightStart hsorts
    exact forall_mem_contents.mp hlevel.equal j hj hboundary (by omega)
  · have hskip := hlevel.skip_right (Bool.eq_false_of_not_eq_true hsorts)
    exact forall_mem_contents.mp hskip j hj hboundary hj

/-- Before the boundary, a slot that is done holds an unordered element. -/
theorem not_isOrdered_of_done {i : Nat} (hdone : level.Done i) (hi : i < level.items.size)
    (hboundary : i < level.boundary) : ¬ isOrdered level.items[i] := by
  have hskip : level.sortsLeft = false := by
    by_contra hsorts
    have hle := hdone.boundary_le (Bool.eq_true_of_not_eq_false hsorts)
    omega
  exact forall_mem_contents.mp (hlevel.skip_left hskip) i hi (Nat.zero_le i) hboundary

/-- A slot that is done stands in the wrong order with no other slot. -/
theorem not_inverted_of_done {i : Nat} (hdone : level.Done i) (j : Nat) :
    ¬ Inverted level.items i j ∧ ¬ Inverted level.items j i := by
  constructor
  · rintro ⟨hi, hj, hij, hlt⟩
    by_cases hboundary : level.boundary ≤ i
    · -- nothing from the boundary on is below the pivot
      have heqv := eqv_iff_le_le.mp (hlevel.eqv_of_done hdone hi hboundary (Nat.le_refl i))
      have hle := (hlevel.pivot_le_iff hj).mpr (hboundary.trans (Nat.le_of_lt hij))
      exact not_le_of_lt hlt (le_trans heqv.2 hle)
    · exact hlevel.not_isOrdered_of_done hdone hi (Nat.lt_of_not_le hboundary)
        (isOrdered_right_of_lt hlt)
  · rintro ⟨hj, hi, hji, hlt⟩
    by_cases hboundary : level.boundary ≤ i
    · -- an element above the pivot would stand behind the slot
      have heqv := eqv_iff_le_le.mp (hlevel.eqv_of_done hdone hi hboundary (Nat.le_refl i))
      have hle := (hlevel.pivot_le_iff hj).mp (le_trans heqv.1 (le_of_lt hlt))
      have heqv' := eqv_iff_le_le.mp (hlevel.eqv_of_done hdone hj hle (Nat.le_of_lt hji))
      exact not_le_of_lt hlt (le_trans heqv'.2 heqv.1)
    · exact hlevel.not_isOrdered_of_done hdone hi (Nat.lt_of_not_le hboundary)
        (isOrdered_left_of_le (le_of_lt hlt))

/-! ### Where the sides end -/

theorem exists_slot {x : α} (hx : x ∈ range) :
    ∃ i, ∃ hi : i < level.items.size, level.items[i] = x :=
  Array.getElem_of_mem (hlevel.perm.mem_iff.mpr hx)

/-- An ordered pivot does not stand on the left side itself. -/
theorem boundary_lt (hpivot : isOrdered level.pivot) : level.boundary < level.items.size := by
  obtain ⟨i, hi, hget⟩ := hlevel.exists_slot hlevel.pivot_mem
  have hle : le level.pivot level.items[i] := by
    rw [hget]
    exact le_refl hpivot
  exact Nat.lt_of_le_of_lt ((hlevel.pivot_le_iff hi).mp hle) hi

/-- An element below the pivot stands on the left side. -/
theorem boundary_pos {x : α} (hx : x ∈ range) (hlt : lt x level.pivot) : 0 < level.boundary := by
  obtain ⟨i, hi, rfl⟩ := hlevel.exists_slot hx
  by_contra hzero
  exact not_le_of_lt hlt ((hlevel.pivot_le_iff hi).mpr (by omega))

/-- An element above the pivot stands on the right side. -/
theorem rightStart_lt {x : α} (hx : x ∈ range) (hlt : lt level.pivot x) :
    level.rightStart < level.items.size := by
  obtain ⟨i, hi, rfl⟩ := hlevel.exists_slot hx
  have hboundary := (hlevel.pivot_le_iff hi).mp (le_of_lt hlt)
  by_contra hstart
  have heqv := forall_mem_contents.mp hlevel.equal i hi hboundary (by omega)
  exact not_le_of_lt hlt (eqv_iff_le_le.mp heqv).2

/-- If only the right side is left to sort, an ordered pivot has been split off from it. -/
theorem rightStart_pos (hpivot : isOrdered level.pivot) (hright : level.sortsRight = true)
    (hleft : level.sortsLeft = false) : 0 < level.rightStart := by
  obtain ⟨i, hi, hget⟩ := hlevel.exists_slot hlevel.pivot_mem
  by_contra hzero
  have hlt := forall_mem_contents.mp (hlevel.right_above hright hleft) i hi (by omega) hi
  rw [hget] at hlt
  exact not_le_of_lt hlt (le_refl hpivot)

end Sound

/-! ### What the extremes say about the sides -/

section OfRange

variable (lanes : Lanes) (range : Array α) (h : 0 < range.size)

theorem pivot_ofRange : (ofRange lanes range h).pivot = choosePivot range h := by
  rw [ofRange]
  simp only
  split
  · rfl
  · rfl

theorem seen_ofRange : (ofRange lanes range h).seen =
    (partitionRange lanes .atLeast range (choosePivot range h) .seed).seen := by
  rw [ofRange]
  simp only
  split
  · rfl
  · rfl

variable (hpivot : isOrdered (choosePivot range h))

include hpivot

/-- The left side is left to sort only if some element is below the pivot. -/
theorem exists_lt_of_sortsLeft (hsorts : (ofRange lanes range h).sortsLeft = true) :
    ∃ x ∈ range, lt x (choosePivot range h) := by
  have hsplit := partitionRange_sound lanes .atLeast range (choosePivot range h) .seed
  rw [sortsLeft, pivot_ofRange, seen_ofRange, Bool.not_eq_true'] at hsorts
  by_contra hnone
  have heqv := (hsplit.eqv_smallest_iff (choosePivot_mem range h)).mpr
    ⟨hpivot, fun x hx hord => (not_lt_iff_le hord hpivot).mp fun hlt => hnone ⟨x, hx, hlt⟩⟩
  rw [hsorts] at heqv
  cases heqv

/-- The right side is left to sort only if some element is above the pivot. -/
theorem exists_gt_of_sortsRight (hsorts : (ofRange lanes range h).sortsRight = true) :
    ∃ x ∈ range, lt (choosePivot range h) x := by
  have hsplit := partitionRange_sound lanes .atLeast range (choosePivot range h) .seed
  rw [sortsRight, pivot_ofRange, seen_ofRange, Bool.not_eq_true'] at hsorts
  by_contra hnone
  have heqv := (hsplit.eqv_biggest_iff (choosePivot_mem range h)).mpr
    ⟨hpivot, fun x hx hord => (not_lt_iff_le hpivot hord).mp fun hlt => hnone ⟨x, hx, hlt⟩⟩
  rw [hsorts] at heqv
  cases heqv

/-- Around an ordered pivot a level shrinks the range: each side that is left to sort holds an
element, and there is one that it does not hold. -/
theorem ofRange_shrinks {size : Nat} (hsize : range.size = size) :
    (ofRange lanes range h).Shrinks size := by
  have hlevel := ofRange_sound lanes range h
  have hlt := exists_lt_of_sortsLeft lanes range h hpivot
  have hgt := exists_gt_of_sortsRight lanes range h hpivot
  rw [← pivot_ofRange lanes] at hpivot hlt hgt
  have hleft (hsorts : (ofRange lanes range h).sortsLeft = true) :
      0 < (ofRange lanes range h).boundary := by
    obtain ⟨x, hx, hx_lt⟩ := hlt hsorts
    exact hlevel.boundary_pos hx hx_lt
  rw [← hsize, ← hlevel.perm.size_eq]
  refine ⟨hleft, hlevel.boundary_lt hpivot, fun hright => ?_, fun hright => ?_⟩
  · -- what is not on the right side is on the left one or has been split off
    by_cases hsorts : (ofRange lanes range h).sortsLeft = true
    · exact Nat.lt_of_lt_of_le (hleft hsorts) hlevel.boundary_le
    · exact hlevel.rightStart_pos hpivot hright (Bool.eq_false_of_not_eq_true hsorts)
  · obtain ⟨x, hx, hx_lt⟩ := hgt hright
    exact hlevel.rightStart_lt hx hx_lt

end OfRange

end Level

/-! ### The pushed ranges -/

/-- A range is a proper part of another one: it is not empty, lies inside, and is shorter. -/
structure Pending.ProperPart (q p : Pending) : Prop where
  left_lt_right : q.left < q.right
  left_le : p.left ≤ q.left
  right_le : q.right ≤ p.right
  shorter : q.right - q.left < p.right - p.left

theorem Pending.properPart_of_mem_parts {p q : Pending} {limit : Nat} {level : Level α}
    (h : level.Shrinks (p.right - p.left)) (hq : q ∈ p.parts limit level) : q.ProperPart p := by
  have hboundary := h.boundary_lt
  rcases mem_parts.mp hq with ⟨hsorts, rfl⟩ | ⟨hsorts, rfl⟩
  · have hpos := h.rightStart_pos hsorts
    have hlt := h.rightStart_lt hsorts
    constructor
    · show p.left + level.rightStart < p.right
      omega
    · exact Nat.le_add_right ..
    · exact Nat.le_refl _
    · show p.right - (p.left + level.rightStart) < p.right - p.left
      omega
  · have hpos := h.boundary_pos hsorts
    constructor
    · exact Nat.lt_add_of_pos_right hpos
    · exact Nat.le_refl _
    · show p.left + level.boundary ≤ p.right
      omega
    · show p.left + level.boundary - p.left < p.right - p.left
      omega

/-! ### Skipped slots -/

/-- Two slots of a range that has been put back stand as they do inside the range. -/
theorem inverted_splice_iff {v part : Array α} {lo i j : Nat} (hfits : lo + part.size ≤ v.size)
    (hlo_i : lo ≤ i) (hi : i < lo + part.size) (hlo_j : lo ≤ j) (hj : j < lo + part.size) :
    Inverted (splice v lo part) i j ↔ Inverted part (i - lo) (j - lo) := by
  have hsize : (splice v lo part).size = v.size := size_splice v lo part
  have hget (k : Nat) (hlo : lo ≤ k) (hk : k < (splice v lo part).size)
      (hpart : k - lo < part.size) : (splice v lo part)[k] = part[k - lo] := by
    have hslot := getElem?_splice v lo part k
    rw [if_pos ⟨hlo, by omega, hsize ▸ hk⟩, Array.getElem?_eq_getElem hk,
      Array.getElem?_eq_getElem hpart] at hslot
    exact Option.some_inj.mp hslot
  constructor
  · rintro ⟨hi', hj', hij, hlt⟩
    rw [hget i hlo_i hi' (by omega), hget j hlo_j hj' (by omega)] at hlt
    exact ⟨by omega, by omega, by omega, hlt⟩
  · rintro ⟨hi', hj', hij, hlt⟩
    refine ⟨by omega, by omega, by omega, ?_⟩
    rw [hget i hlo_i (by omega) hi', hget j hlo_j (by omega) hj']
    exact hlt

/-- A slot of a treated range that no part covers is done in its level. -/
theorem Level.done_of_not_mem_parts {p : Pending} {limit i : Nat} {level : Level α}
    (hleft : p.left ≤ i) (hright : i < p.right)
    (h : ∀ q ∈ p.parts limit level, ¬ (q.left ≤ i ∧ i < q.right)) : level.Done (i - p.left) := by
  constructor
  · intro hsorts
    have hout := h _ (mem_parts.mpr (Or.inr ⟨hsorts, rfl⟩))
    simp only at hout
    omega
  · intro hsorts
    have hout := h _ (mem_parts.mpr (Or.inl ⟨hsorts, rfl⟩))
    simp only at hout
    omega

/-- After an iteration with levels to spend, a slot that is not pushed again stands in the wrong order
with no slot of the treated range. -/
theorem Work.not_inverted_of_step (lanes : Lanes) {items : Array α} {p : Pending}
    {rest : List Pending} {next : Work α} (hright : p.right ≤ items.size)
    (hlong : runThreshold < (slice items p.left p.right).size) (hlimit : 0 < p.limit)
    (h : step lanes items p rest = .ok next) :
    ∃ pushed, next.stack = pushed ++ rest ∧ ∀ i j, p.left ≤ i → i < p.right →
      (∀ q ∈ pushed, ¬ (q.left ≤ i ∧ i < q.right)) → p.left ≤ j → j < p.right →
      ¬ Inverted next.items i j ∧ ¬ Inverted next.items j i := by
  obtain ⟨limit, hlimit⟩ := Nat.exists_eq_add_one_of_ne_zero (Nat.ne_of_gt hlimit)
  have hlevel := Level.ofRange_sound lanes (slice items p.left p.right) (Nat.zero_lt_of_lt hlong)
  have hsize := hlevel.perm.size_eq.trans (size_slice items hright)
  have hnext := eq_of_step_of_long lanes rest hlong hlimit h
  simp only at hnext
  rw [hnext]
  refine ⟨_, rfl, fun i j hi_left hi_right hunpushed hj_left hj_right => ?_⟩
  have hdone := Level.done_of_not_mem_parts hi_left hi_right fun q hq =>
    hunpushed q (List.mem_reverse.mpr hq)
  obtain ⟨hbehind, hbefore⟩ := hlevel.not_inverted_of_done hdone (j - p.left)
  simp only
  rw [inverted_splice_iff (by omega) hi_left (by omega) hj_left (by omega),
    inverted_splice_iff (by omega) hj_left (by omega) hi_left (by omega)]
  exact ⟨hbehind, hbefore⟩

/-- What the quicksort skips of a range that is longer than a short run. If the pivot compares equal
to the biggest element, so does everything from the boundary on; if it compares equal to the
smallest element, only unordered elements stand before the boundary; and a second pass splits what
stands from the boundary on into the elements equal to the pivot and those above it. So whatever the
elements are, an iteration of the loop pushes every slot of the range again that stands in the wrong
order with another one. -/
theorem skipped_slots_in_order (lanes : Lanes) {range : Array α}
    (hlong : runThreshold < range.size) :
    let pivot := choosePivot range (Nat.zero_lt_of_lt hlong)
    let below := partitionRange lanes .atLeast range pivot .seed
    let equal :=
      partitionPass lanes .above (slice below.items below.boundary below.items.size) pivot
    (eqv pivot below.seen.biggest →
      ∀ x ∈ contents below.items below.boundary below.items.size, eqv pivot x) ∧
    (eqv pivot below.seen.smallest →
      ∀ x ∈ contents below.items 0 below.boundary, ¬ isOrdered x) ∧
    (∀ x ∈ contents equal.items 0 equal.boundary, eqv pivot x) ∧
    (∀ x ∈ contents equal.items equal.boundary equal.items.size, lt pivot x) ∧
    ∀ (items : Array α) (p : Pending) (rest : List Pending) (next : Work α),
      p.right ≤ items.size → slice items p.left p.right = range → 0 < p.limit →
      Work.step lanes items p rest = .ok next →
      ∃ pushed, next.stack = pushed ++ rest ∧ ∀ i j, p.left ≤ i → i < p.right →
        (∀ q ∈ pushed, ¬ (q.left ≤ i ∧ i < q.right)) → p.left ≤ j → j < p.right →
        ¬ Inverted next.items i j ∧ ¬ Inverted next.items j i := by
  intro pivot below equal
  have hpivot := choosePivot_mem range (Nat.zero_lt_of_lt hlong)
  have hsplit := partitionRange_sound lanes .atLeast range pivot .seed
  have hequal := partitionPass_sound lanes .above
    (slice below.items below.boundary below.items.size) pivot
  refine ⟨fun hbiggest x hx => Level.eqv_of_eqv_biggest hsplit hpivot hbiggest hx,
    fun hsmallest x hx => Level.not_isOrdered_of_eqv_smallest hsplit hpivot hsmallest hx, ?_,
    hequal.separated.passing, ?_⟩
  · -- at least the pivot by the first pass, not above it by the second one
    intro x hx
    have hmem := hequal.perm.mem_iff.mp (mem_of_mem_contents hx)
    have hle : le pivot x := hsplit.separated.passing x
      (Multiset.mem_coe.mpr (Array.mem_toList_iff.mpr hmem))
    exact eqv_of_le_of_not_lt hle (hequal.separated.failing x hx)
  · rintro items p rest next hright rfl hlimit hstep
    exact Work.not_inverted_of_step lanes hright hlong hlimit hstep

/-- Ten floats around a zero: two zeros and two NaNs are not pushed again. -/
theorem skipped_slots_in_order_of_zeros :
    let range : Array Binary32 := #[⟨0⟩, .quietNaN, ⟨0x80000000⟩, ⟨1⟩, ⟨2⟩, .quietNaN, .infinity,
      ⟨3⟩, ⟨4⟩, ⟨5⟩]
    let lanes : Lanes := .portable 3 (by decide)
    let below := partitionRange lanes .atLeast range ⟨0⟩ .seed
    runThreshold < range.size ∧ (∀ x ∈ contents below.items 0 below.boundary, ¬ isOrdered x) ∧
      ∃ next, Work.step lanes range ⟨0, 10, 1⟩ [] = .ok next ∧
        ∃ pushed, next.stack = pushed ++ [] ∧ ∀ i j, 0 ≤ i → i < 10 →
          (∀ q ∈ pushed, ¬ (q.left ≤ i ∧ i < q.right)) → 0 ≤ j → j < 10 →
          ¬ Inverted next.items i j ∧ ¬ Inverted next.items j i := by
  intro range lanes below
  have hlong : runThreshold < range.size := by decide
  obtain ⟨-, hsmallest, -, -, hloop⟩ := skipped_slots_in_order lanes hlong
  have hsplit := partitionRange_sound lanes .atLeast range (⟨0⟩ : Binary32) .seed
  have hskip : eqv (⟨0⟩ : Binary32) below.seen.smallest :=
    (hsplit.eqv_smallest_iff (choosePivot_mem range (by decide))).mpr ⟨by decide, by decide⟩
  have hslice : slice range 0 10 = range := slice_full range
  have hlong' : runThreshold < (slice range 0 10).size := by decide
  have hstep := Work.step_of_long_of_room lanes (p := ⟨0, 10, 1⟩) [] hlong' rfl (by decide)
  exact ⟨hlong, hsmallest hskip, _, hstep,
    hloop range ⟨0, 10, 1⟩ [] _ (by decide) hslice (by decide) hstep⟩

/-! ### A loop without levels -/

/-- A bound on the number of ranges that come of one range of ordered elements, if all parts are
proper: a binary tree with a leaf for each element has less than twice as many nodes. -/
def Pending.nodes (p : Pending) : Nat := max 1 (2 * (p.right - p.left) - 1)

theorem Pending.nodes_pos (p : Pending) : 0 < p.nodes :=
  Nat.lt_of_lt_of_le Nat.one_pos (Nat.le_max_left ..)

namespace Work

/-- A bound on the number of iterations that a work stack takes if all parts are proper. -/
def nodes (stack : List Pending) : Nat := (stack.map Pending.nodes).sum

@[simp] theorem nodes_nil : nodes [] = 0 := rfl

@[simp] theorem nodes_cons (p : Pending) (rest : List Pending) :
    nodes (p :: rest) = p.nodes + nodes rest := List.sum_cons

@[simp] theorem nodes_append (stack rest : List Pending) :
    nodes (stack ++ rest) = nodes stack + nodes rest := by
  rw [nodes, List.map_append, List.sum_append, nodes, nodes]

@[simp] theorem nodes_reverse (stack : List Pending) : nodes stack.reverse = nodes stack := by
  rw [nodes, List.map_reverse, List.sum_reverse, nodes]

/-- The parts of a range have fewer nodes than the range. -/
theorem nodes_parts_lt {p : Pending} (limit : Nat) {level : Level α}
    (hle : level.boundary ≤ level.rightStart) (h : level.Shrinks (p.right - p.left)) :
    nodes (p.parts limit level).reverse < p.nodes := by
  obtain ⟨hleft_pos, hleft_lt, hright_pos, hright_lt⟩ := h
  rw [nodes_reverse, Pending.parts, nodes_append]
  split
  · rename_i hright
    have hpos := hright_pos hright
    have hlt := hright_lt hright
    split
    · rename_i hleft
      have := hleft_pos hleft
      simp only [nodes_cons, nodes_nil, Pending.nodes]
      omega
    · simp only [nodes_cons, nodes_nil, Pending.nodes]
      omega
  · split
    · rename_i hleft
      have := hleft_pos hleft
      simp only [nodes_cons, nodes_nil, Pending.nodes]
      omega
    · exact p.nodes_pos

/-- The loop after a number of iterations that cost no level: each range gets one when its turn comes,
and the ranges below it take no room. -/
def unlimited (lanes : Lanes) : Nat → Work α → Except Fault (Work α)
  | 0, work => .ok work
  | _ + 1, ⟨items, []⟩ => .ok ⟨items, []⟩
  | n + 1, ⟨items, p :: rest⟩ =>
    match step lanes items { p with limit := 1 } [] with
    | .ok next => unlimited lanes n ⟨next.items, next.stack ++ rest⟩
    | .error fault => .error fault

/-- An iteration on ordered elements replaces a range by ranges inside it that have fewer nodes. -/
theorem step_nodes_lt (lanes : Lanes) {items : Array α} {p : Pending} (hordered : AllOrdered items)
    (hright : p.right ≤ items.size) :
    ∃ next, step lanes items { p with limit := 1 } [] = .ok next ∧ next.items.Perm items ∧
      (∀ q ∈ next.stack, q.right ≤ items.size) ∧ nodes next.stack < p.nodes := by
  by_cases hlong : runThreshold < (slice items p.left p.right).size
  · have hpivot := hordered _ (mem_of_mem_slice
      (choosePivot_mem (slice items p.left p.right) (Nat.zero_lt_of_lt hlong)))
    have hlevel := Level.ofRange_sound lanes _ (Nat.zero_lt_of_lt hlong)
    have hsize : (slice items p.left p.right).size = p.right - p.left := size_slice items hright
    have hshrinks := Level.ofRange_shrinks lanes _ (Nat.zero_lt_of_lt hlong) hpivot hsize
    refine ⟨_, step_of_long_of_room lanes (p := { p with limit := 1 }) [] hlong rfl (by decide),
      splice_perm (show p.left ≤ p.right by omega) hright hlevel.perm, fun q hq => ?_, ?_⟩
    · rw [List.append_nil, List.mem_reverse] at hq
      have hpart := Pending.properPart_of_mem_parts (p := { p with limit := 1 }) hshrinks hq
      exact hpart.right_le.trans hright
    · simp only [List.append_nil]
      exact nodes_parts_lt (p := { p with limit := 1 }) 0 hlevel.boundary_le hshrinks
  · exact ⟨⟨items, []⟩, step_of_short lanes [] (Nat.not_lt.mp hlong), .rfl,
      fun q hq => absurd hq List.not_mem_nil, p.nodes_pos⟩

/-- On ordered elements the loop ends after as many iterations as there can be ranges. -/
theorem unlimited_of_nodes_le (lanes : Lanes) {n : Nat} {items : Array α} {stack : List Pending}
    (hordered : AllOrdered items) (hright : ∀ p ∈ stack, p.right ≤ items.size)
    (hn : nodes stack ≤ n) :
    ∃ w, unlimited lanes n ⟨items, stack⟩ = .ok ⟨w, []⟩ ∧ w.Perm items := by
  induction n generalizing items stack with
  | zero =>
    cases stack with
    | nil => exact ⟨items, rfl, .rfl⟩
    | cons p rest =>
      have hpos := p.nodes_pos
      rw [nodes_cons] at hn
      omega
  | succ n ih =>
    cases stack with
    | nil => exact ⟨items, rfl, .rfl⟩
    | cons p rest =>
      obtain ⟨next, hok, hperm, hinside, hlt⟩ :=
        step_nodes_lt lanes hordered (hright p List.mem_cons_self)
      have hnodes : nodes (next.stack ++ rest) ≤ n := by
        rw [nodes_cons] at hn
        rw [nodes_append]
        omega
      have hinside' : ∀ q ∈ next.stack ++ rest, q.right ≤ next.items.size := by
        intro q hq
        rw [hperm.size_eq]
        rcases List.mem_append.mp hq with hq | hq
        · exact hinside q hq
        · exact hright q (List.mem_cons_of_mem p hq)
      obtain ⟨w, hrun, hw⟩ := ih (hordered.of_perm hperm) hinside' hnodes
      refine ⟨w, ?_, hw.trans hperm⟩
      rw [unlimited, hok]
      exact hrun

end Work

/-- Every level makes progress unless its pivot is unordered: an iteration that treats a long range
with levels to spend pushes ranges that do not overlap, each of them a proper part of the range, and
fails only if the work stack is full. So on integers or ordered floats the loop ends without any
limit, after at most one iteration more than there are elements twice. -/
theorem pushed_ranges_shrink (lanes : Lanes) :
    (∀ (items : Array α) (p : Pending) (rest : List Pending)
      (hlong : runThreshold < (slice items p.left p.right).size),
      p.right ≤ items.size → 0 < p.limit →
      isOrdered (choosePivot (slice items p.left p.right) (Nat.zero_lt_of_lt hlong)) →
      (rest.length + 2 ≤ stackCapacity → ∃ next, Work.step lanes items p rest = .ok next) ∧
      ∀ next, Work.step lanes items p rest = .ok next →
        ∃ pushed, next.stack = pushed ++ rest ∧ (∀ q ∈ pushed, q.ProperPart p) ∧
          pushed.Pairwise fun q r => q.right ≤ r.left) ∧
    ∀ v : Array α, (kind α).isInteger ∨ AllOrdered v → ∀ n, 2 * v.size < n →
      ∃ w, Work.unlimited lanes n ⟨v, [⟨0, v.size, 0⟩]⟩ = .ok ⟨w, []⟩ ∧ w.Perm v := by
  refine ⟨fun items p rest hlong hright hlimit hpivot => ?_, fun v hv n hn => ?_⟩
  · obtain ⟨limit, hlimit⟩ := Nat.exists_eq_add_one_of_ne_zero (Nat.ne_of_gt hlimit)
    have hlevel := Level.ofRange_sound lanes _ (Nat.zero_lt_of_lt hlong)
    have hshrinks := Level.ofRange_shrinks lanes _ (Nat.zero_lt_of_lt hlong) hpivot
      (size_slice items hright)
    refine ⟨fun hroom => ⟨_, Work.step_of_long_of_room lanes rest hlong hlimit hroom⟩,
      fun next hnext => ?_⟩
    rw [Work.eq_of_step_of_long lanes rest hlong hlimit hnext]
    refine ⟨_, rfl, fun q hq => ?_, pairwise_reverse_parts hlevel.boundary_le⟩
    exact Pending.properPart_of_mem_parts hshrinks (List.mem_reverse.mp hq)
  · have hv : AllOrdered v := hv.elim (fun hint => allOrdered_of_isInteger hint v) id
    refine Work.unlimited_of_nodes_le lanes hv (fun p hp => ?_) ?_
    · rw [List.mem_singleton.mp hp]
    · simp only [Work.nodes, Pending.nodes, List.map_cons, List.map_nil, List.sum_cons,
        List.sum_nil]
      omega

/-- Ten floats with NaNs among them and one level to spend, and a thousand equal integers. -/
theorem pushed_ranges_shrink_of_nans :
    let range : Array Binary32 := #[⟨1⟩, .quietNaN, ⟨0x80000000⟩, ⟨1⟩, ⟨2⟩, .quietNaN, .infinity,
      ⟨0⟩, ⟨4⟩, ⟨1⟩]
    let keys : Array Int32 := Array.replicate 1000 7
    runThreshold < (slice range 0 10).size ∧
      (∃ next, Work.step .avx2 range ⟨0, 10, 1⟩ [] = .ok next ∧
        ∃ pushed, next.stack = pushed ++ [] ∧ ∀ q ∈ pushed, q.ProperPart ⟨0, 10, 1⟩) ∧
      ∃ w, Work.unlimited .avx2 2001 ⟨keys, [⟨0, keys.size, 0⟩]⟩ = .ok ⟨w, []⟩ ∧ w.Perm keys := by
  intro range keys
  have hlong : runThreshold < (slice range 0 10).size := by decide
  obtain ⟨hstep, -⟩ := pushed_ranges_shrink (α := Binary32) .avx2
  obtain ⟨hok, hpushed⟩ := hstep range ⟨0, 10, 1⟩ [] hlong (by decide) (by decide) rfl
  obtain ⟨next, hnext⟩ := hok (by decide)
  obtain ⟨pushed, hstack, hproper, -⟩ := hpushed next hnext
  obtain ⟨-, hints⟩ := pushed_ranges_shrink (α := Int32) .avx2
  have hsize : keys.size = 1000 := Array.size_replicate
  exact ⟨hlong, ⟨next, hnext, pushed, hstack, hproper⟩,
    hints keys (Or.inl rfl) 2001 (by rw [hsize]; decide)⟩

end VectorizedSort
