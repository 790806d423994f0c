import Mathlib.Tactic.Abel
import VectorizedSort.Partition.Sweep
import VectorizedSort.Proofs.Partition.Trim

/-! # The register sweep separates its range

The sweep overwrites the array while it reads it, so the elements of the array are not all in the
array: some stand in the registers that are held back. What a sweep keeps is that the elements
outside the open range, the unread ones and the held ones together are those of the given array.

Before a register is loaded, two registers' worth of slots is free. The next register comes from
the side with fewer free slots, so that afterwards both sides have room for a whole register and
nothing unread is overwritten, whichever way its lanes are split. -/

namespace VectorizedSort

variable {α : Type} [Element α]

/-- A register loaded from inside the array holds its slots in order. -/
theorem toList_load {width pos : Nat} {mem : Array α} (h : pos + width ≤ mem.size) :
    (load width mem pos).toList = (slice mem pos (pos + width)).toList := by
  apply List.ext_getElem
  · rw [Vector.length_toList, Array.length_toList, size_slice mem h]
    omega
  · intro i h₁ h₂
    rw [Vector.length_toList] at h₁
    have hpos : pos + i < mem.size := by omega
    simp [load, slice, peek, hpos]

theorem coe_toList_load {width pos : Nat} {mem : Array α} (h : pos + width ≤ mem.size) :
    ((load width mem pos).toList : Multiset α) = contents mem pos (pos + width) := by
  rw [contents, toList_load h]

namespace Sweep

section

variable {width : Nat}

/-- The slot behind the last one that a passing lane may still go to. -/
def top (s : Sweep α width) : Nat := s.store + s.unplaced + width

/-! ### Placing a register -/

section Place

variable (lanes : Lanes) (test : Test) (pivot : α) (reg : Register α lanes.width)
  (s : Sweep α lanes.width)

/-- The state after a register was placed against a broadcast pivot. -/
def placed : Sweep α lanes.width := s.place lanes test (broadcast lanes.width pivot) reg

/-- Placing a register writes its failing and its passing elements, in lane order. -/
theorem mem_placed :
    (placed lanes test pivot reg s).mem =
      writeList (writeList s.mem s.store (failing test pivot reg.toList))
        (s.store + s.unplaced + (failing test pivot reg.toList).length)
        (passing test pivot reg.toList) := by
  rw [placed, place, Lanes.mem_splitStore _ _ _ _ (Or.inl (Nat.le_add_right _ _)),
    unselectedOf_mask, selectedOf_mask]

theorem length_failing_add_length_passing_toList :
    (failing test pivot reg.toList).length + (passing test pivot reg.toList).length
      = lanes.width := by
  rw [length_failing_add_length_passing, Vector.length_toList]

/-- The store position moves past the failing lanes. -/
theorem store_placed :
    (placed lanes test pivot reg s).store = s.store + (failing test pivot reg.toList).length := by
  have hlength := length_failing_add_length_passing_toList lanes test pivot reg
  simp only [placed, place]
  rw [Lanes.selected_splitStore, selectedOf_mask]
  omega

variable {s}

/-- A range that neither group of lanes reaches into is as before. -/
theorem contents_placed_of_between {lo hi : Nat}
    (hlo : s.store + (failing test pivot reg.toList).length ≤ lo)
    (hhi : hi ≤ s.store + s.unplaced + (failing test pivot reg.toList).length) :
    contents (placed lanes test pivot reg s).mem lo hi = contents s.mem lo hi := by
  rw [mem_placed, contents_writeList_of_disjoint _ _ (Or.inl hhi),
    contents_writeList_of_disjoint _ _ (Or.inr hlo)]

variable (htop : s.top ≤ s.mem.size)

include htop

/-- The failing lanes join what stands left of the store position. -/
theorem contents_placed_below :
    contents (placed lanes test pivot reg s).mem 0 (placed lanes test pivot reg s).store =
      contents s.mem 0 s.store + (failing test pivot reg.toList : Multiset α) := by
  have hlength := length_failing_add_length_passing_toList lanes test pivot reg
  rw [top] at htop
  rw [store_placed, mem_placed, contents_writeList_of_disjoint _ _ (Or.inl (by omega)),
    ← contents_add_contents _ (Nat.zero_le s.store) (Nat.le_add_right _ _),
    contents_writeList_of_disjoint _ _ (Or.inl (Nat.le_refl _)),
    contents_writeList_self _ (by omega)]

/-- The passing lanes join what stands behind the last free slot. -/
theorem contents_placed_above :
    contents (placed lanes test pivot reg s).mem
        ((placed lanes test pivot reg s).store + s.unplaced) s.mem.size =
      (passing test pivot reg.toList : Multiset α) + contents s.mem s.top s.mem.size := by
  have hlength := length_failing_add_length_passing_toList lanes test pivot reg
  rw [top] at htop ⊢
  have hend : s.store + s.unplaced + (failing test pivot reg.toList).length
      + (passing test pivot reg.toList).length = s.store + s.unplaced + lanes.width := by omega
  have hstart : s.store + (failing test pivot reg.toList).length + s.unplaced
      = s.store + s.unplaced + (failing test pivot reg.toList).length := by omega
  rw [store_placed, hstart, mem_placed,
    ← contents_add_contents _ (Nat.le_add_right _ (passing test pivot reg.toList).length)
      (by omega), contents_writeList_self _ (by rw [size_writeList]; omega), hend,
    contents_writeList_of_disjoint _ _ (Or.inr (by omega)),
    contents_writeList_of_disjoint _ _ (Or.inr (by omega))]

/-- After placing a register, its elements stand outside the range that is still open. -/
theorem outside_placed :
    outside (placed lanes test pivot reg s).mem (placed lanes test pivot reg s).store
        ((placed lanes test pivot reg s).store + s.unplaced) =
      (reg.toList : Multiset α) + outside s.mem s.store s.top := by
  rw [outside, outside, contents_placed_below lanes test pivot reg htop,
    show (placed lanes test pivot reg s).mem.size = s.mem.size from size_mem_place ..,
    contents_placed_above lanes test pivot reg htop,
    ← coe_failing_add_coe_passing test pivot reg.toList]
  abel

/-- Placing a register keeps the array separated. -/
theorem separated_placed (h : Separated test pivot s.mem s.store s.top) :
    Separated test pivot (placed lanes test pivot reg s).mem
      (placed lanes test pivot reg s).store
      ((placed lanes test pivot reg s).store + s.unplaced) where
  failing x hx := by
    rw [contents_placed_below lanes test pivot reg htop, Multiset.mem_add] at hx
    rcases hx with hx | hx
    · exact h.failing x hx
    · exact not_passes_of_mem_failing (Multiset.mem_coe.mp hx)
  passing x hx := by
    rw [show (placed lanes test pivot reg s).mem.size = s.mem.size from size_mem_place ..,
      contents_placed_above lanes test pivot reg htop, Multiset.mem_add] at hx
    rcases hx with hx | hx
    · exact passes_of_mem_passing (Multiset.mem_coe.mp hx)
    · exact h.passing x hx

end Place

/-! ### The loop -/

/-- What holds whenever the sweep is about to load a register: the cursors are in order, two
registers' worth of slots is free, the array is separated outside the cursors, and the extremes are
those of the elements there. Together with the unread and the held elements these are the elements
of the array `v`. -/
structure Sound (test : Test) (pivot : α) (init : Extremes α) (v : Array α) (held : Multiset α)
    (s : Sweep α width) : Prop where
  store_le : s.store ≤ s.left
  left_le : s.left ≤ s.right
  right_le : s.right ≤ s.top
  top_le : s.top ≤ s.mem.size
  free : s.left + s.unplaced = s.right + width
  separated : Separated test pivot s.mem s.store s.top
  seen : s.seen.OfLanes init (outside s.mem s.store s.top)
  whole : outside s.mem s.store s.top + contents s.mem s.left s.right + held
    = (v.toList : Multiset α)

variable {test : Test} {pivot : α} {init : Extremes α} {v : Array α} {held : Multiset α}

/-- The cursors are in order inside the first `size` slots, so that no difference of two of them
goes below zero, and there is still a register to be placed. -/
structure InRange (size : Nat) (s : Sweep α width) : Prop where
  store_le : s.store ≤ s.left
  left_le : s.left ≤ s.right
  right_le : s.right ≤ s.top
  top_le : s.top ≤ size
  width_le : width ≤ s.unplaced

theorem Sound.inRange {s : Sweep α width} (h : Sound test pivot init v held s) :
    InRange s.mem.size s where
  store_le := h.store_le
  left_le := h.left_le
  right_le := h.right_le
  top_le := h.top_le
  width_le := by
    have hfree := h.free
    have hle := h.left_le
    omega

/-- Loading a register takes its elements off one end of the unread range and leaves room for a
register on both sides. -/
theorem Sound.exists_take {s : Sweep α width} (h : Sound test pivot init v held s)
    (hroom : s.left + width ≤ s.right) :
    ∃ reg lo hi, s.take = (reg, { s with left := lo, right := hi }) ∧
      (reg.toList : Multiset α) + contents s.mem lo hi = contents s.mem s.left s.right ∧
      hi + width = lo + (s.right - s.left) ∧
      s.store + width ≤ lo ∧ lo ≤ hi ∧ hi + width ≤ s.top := by
  have hstore := h.store_le
  have hright := h.right_le
  have htop := h.top_le
  have hfree := h.free
  rw [top] at hright htop ⊢
  -- two registers' worth of slots is free, so the side with more of them has room for one register,
  -- and loading makes room on the other side
  by_cases hside : s.freeRight < s.freeLeft
  · rw [freeRight, freeLeft] at hside
    refine ⟨load width s.mem (s.right - width), s.left, s.right - width, ?_, ?_, by omega,
      by omega, by omega, by omega⟩
    · rw [take, if_pos (by rwa [freeRight, freeLeft])]
    · rw [coe_toList_load (by omega), Nat.sub_add_cancel (by omega), add_comm,
        contents_add_contents _ (by omega) (by omega)]
  · rw [freeRight, freeLeft] at hside
    refine ⟨load width s.mem s.left, s.left + width, s.right, ?_, ?_, by omega, by omega,
      by omega, by omega⟩
    · rw [take, if_neg (by rwa [freeRight, freeLeft])]
    · rw [coe_toList_load (by omega), contents_add_contents _ (by omega) hroom]

variable {lanes : Lanes}

/-- One step keeps the invariant and shortens the unread range by a register. -/
theorem Sound.step {s : Sweep α lanes.width} (h : Sound test pivot init v held s)
    (hroom : s.left + lanes.width ≤ s.right) :
    Sound test pivot init v held (s.step lanes test (broadcast lanes.width pivot)) ∧
      (s.step lanes test (broadcast lanes.width pivot)).right + lanes.width =
        (s.step lanes test (broadcast lanes.width pivot)).left + (s.right - s.left) := by
  obtain ⟨reg, lo, hi, htake, hreg, hlen, hlo, hlohi, hhi⟩ := h.exists_take hroom
  have hfree := h.free
  have htop := h.top_le
  have hlength := length_failing_add_length_passing_toList lanes test pivot reg
  -- the state in which the register is placed differs only in its cursors
  let t : Sweep α lanes.width := { s with left := lo, right := hi }
  have hstep : s.step lanes test (broadcast lanes.width pivot) = placed lanes test pivot reg t := by
    rw [Sweep.step, htake]
    rfl
  have hstore : (placed lanes test pivot reg t).store
      = s.store + (failing test pivot reg.toList).length := store_placed lanes test pivot reg t
  have hunplaced : (placed lanes test pivot reg t).unplaced = s.unplaced - lanes.width := rfl
  have hsize : (placed lanes test pivot reg t).mem.size = s.mem.size := size_mem_place ..
  have htop' : (placed lanes test pivot reg t).top
      = (placed lanes test pivot reg t).store + t.unplaced := by
    rw [top, hunplaced, Nat.add_assoc, Nat.sub_add_cancel (by omega)]
  have hseparated := separated_placed lanes test pivot reg (s := t) htop h.separated
  have houtside := outside_placed lanes test pivot reg (s := t) htop
  rw [← htop'] at hseparated houtside
  rw [top] at hhi htop
  rw [hstep]
  refine ⟨⟨?_, hlohi, ?_, ?_, ?_, hseparated, ?_, ?_⟩, hlen⟩
  · rw [hstore]
    show s.store + (failing test pivot reg.toList).length ≤ lo
    omega
  · rw [htop', hstore]
    show hi ≤ s.store + (failing test pivot reg.toList).length + s.unplaced
    omega
  · rw [htop', hstore, hsize]
    show s.store + (failing test pivot reg.toList).length + s.unplaced ≤ s.mem.size
    omega
  · rw [hunplaced]
    show lo + (s.unplaced - lanes.width) = hi + lanes.width
    omega
  · rw [houtside]
    exact h.seen.absorbLanes lanes reg
  · -- nothing unread is overwritten
    have hbetween : contents (placed lanes test pivot reg t).mem lo hi = contents s.mem lo hi :=
      contents_placed_of_between lanes test pivot reg (s := t)
        (show s.store + (failing test pivot reg.toList).length ≤ lo by omega)
        (show hi ≤ s.store + s.unplaced + (failing test pivot reg.toList).length by omega)
    rw [houtside, ← h.whole, ← hreg]
    show (reg.toList : Multiset α) + outside s.mem s.store s.top
      + contents (placed lanes test pivot reg t).mem lo hi + held = _
    rw [hbetween]
    abel

/-- So do as many steps as there are unread registers. -/
theorem Sound.steps {s : Sweep α lanes.width} {n : Nat} (h : Sound test pivot init v held s)
    (hn : s.left + n * lanes.width ≤ s.right) :
    Sound test pivot init v held (steps lanes test (broadcast lanes.width pivot) n s) ∧
      (Sweep.steps lanes test (broadcast lanes.width pivot) n s).right + n * lanes.width =
        (Sweep.steps lanes test (broadcast lanes.width pivot) n s).left + (s.right - s.left) := by
  induction n generalizing s with
  | zero =>
    rw [Nat.zero_mul, Nat.add_zero] at hn ⊢
    exact ⟨h, (Nat.add_sub_cancel' hn).symm⟩
  | succ n ih =>
    rw [Nat.succ_mul] at hn ⊢
    obtain ⟨hstep, hlen⟩ := h.step (by omega)
    obtain ⟨hsteps, hread⟩ := ih hstep (by omega)
    refine ⟨hsteps, ?_⟩
    rw [Sweep.steps, ← Nat.add_assoc, hread]
    omega

/-! ### The end of a sweep -/

/-- What a sweep leaves: the store position is the boundary, and the extremes are those of the whole
array. -/
structure Finished (test : Test) (pivot : α) (init : Extremes α) (v : Array α)
    (s : Sweep α width) : Prop where
  store_le : s.store ≤ s.mem.size
  separated : Separated test pivot s.mem s.store s.store
  seen : s.seen.OfLanes init (v.toList : Multiset α)
  perm : s.mem.Perm v

/-- Placing the last register fills the last free slots. -/
theorem finished_placed {s : Sweep α lanes.width} {reg : Register α lanes.width}
    (hunplaced : s.unplaced = 0) (htop : s.top ≤ s.mem.size)
    (hseparated : Separated test pivot s.mem s.store s.top)
    (hseen : s.seen.OfLanes init (outside s.mem s.store s.top))
    (hwhole : (reg.toList : Multiset α) + outside s.mem s.store s.top = (v.toList : Multiset α)) :
    Finished test pivot init v (placed lanes test pivot reg s) := by
  have hseparated' := separated_placed lanes test pivot reg htop hseparated
  have houtside := outside_placed lanes test pivot reg htop
  rw [hunplaced, Nat.add_zero] at hseparated' houtside
  have hle : (placed lanes test pivot reg s).store ≤ (placed lanes test pivot reg s).mem.size := by
    have hlength := length_failing_add_length_passing_toList lanes test pivot reg
    rw [store_placed, show (placed lanes test pivot reg s).mem.size = s.mem.size from
      size_mem_place ..]
    rw [top] at htop
    omega
  refine ⟨hle, hseparated', ?_, ?_⟩
  · rw [← hwhole]
    exact hseen.absorbLanes lanes reg
  · have hcontents := outside_add_contents (placed lanes test pivot reg s).mem (Nat.le_refl _) hle
    rw [contents_self, add_zero, houtside, hwhole] at hcontents
    exact perm_iff_coe_eq.mpr hcontents.symm

/-- With nothing left to read, placing the two held registers finishes the sweep. -/
theorem Sound.finish {s : Sweep α lanes.width} {first last : Register α lanes.width}
    (h : Sound test pivot init v ((first.toList : Multiset α) + (last.toList : Multiset α)) s)
    (hread : s.right = s.left) :
    Finished test pivot init v
      (placed lanes test pivot last (placed lanes test pivot first s)) := by
  have hfree := h.free
  have htop := h.top_le
  have hlength := length_failing_add_length_passing_toList lanes test pivot first
  -- the first of them leaves one register's worth of free slots
  have hunplaced : (placed lanes test pivot first s).unplaced = 0 := by
    show s.unplaced - lanes.width = 0
    omega
  have htop' : (placed lanes test pivot first s).top
      = (placed lanes test pivot first s).store + s.unplaced := by
    rw [top, hunplaced, Nat.add_zero]
    omega
  have hseparated := separated_placed lanes test pivot first htop h.separated
  have houtside := outside_placed lanes test pivot first htop
  rw [← htop'] at hseparated houtside
  refine finished_placed hunplaced ?_ hseparated ?_ ?_
  · rw [htop', store_placed, show (placed lanes test pivot first s).mem.size = s.mem.size from
      size_mem_place ..]
    rw [top] at htop
    omega
  · rw [houtside]
    exact h.seen.absorbLanes lanes first
  · have hwhole := h.whole
    rw [hread, contents_self, add_zero] at hwhole
    rw [houtside, ← hwhole]
    abel

section Run

variable {mem : Array α} {left right : Nat} {seen : Extremes α}
  (hright : right ≤ mem.size) (hseparated : Separated test pivot mem left right)
  (hseen : seen.Of init (outside mem left right))

include hright hseparated hseen

/-- Holding back the registers at both ends starts the loop. -/
theorem sound_holdEnds (hroom : left + 2 * lanes.width ≤ right) :
    Sound test pivot init mem
      (((holdEnds lanes (start lanes mem left right seen)).1.toList : Multiset α) +
        ((holdEnds lanes (start lanes mem left right seen)).2.1.toList : Multiset α))
      (holdEnds lanes (start lanes mem left right seen)).2.2 := by
  have htop : (holdEnds lanes (start lanes mem left right seen)).2.2.top = right := by
    show left + (right - left - lanes.width) + lanes.width = right
    omega
  have hends : contents mem left right
      = contents mem left (left + lanes.width) +
        (contents mem (left + lanes.width) (right - lanes.width) +
          contents mem (right - lanes.width) right) := by
    rw [contents_add_contents mem (by omega) (Nat.sub_le right lanes.width),
      contents_add_contents mem (Nat.le_add_right left lanes.width) (by omega)]
  have hfirst : ((load lanes.width mem left).toList : Multiset α)
      = contents mem left (left + lanes.width) := coe_toList_load (by omega)
  have hlast : ((load lanes.width mem (right - lanes.width)).toList : Multiset α)
      = contents mem (right - lanes.width) right := by
    rw [coe_toList_load (by omega), Nat.sub_add_cancel (by omega)]
  refine ⟨Nat.le_add_right left lanes.width, ?_, ?_, ?_, ?_, ?_, ?_, ?_⟩
  · show left + lanes.width ≤ right - lanes.width
    omega
  · rw [htop]
    exact Nat.sub_le right lanes.width
  · rw [htop]
    exact hright
  · show left + lanes.width + (right - left - lanes.width) = right - lanes.width + lanes.width
    omega
  · rw [htop]
    exact hseparated
  · rw [htop]
    exact hseen.spread lanes
  · rw [htop, ← outside_add_contents mem (show left ≤ right by omega) hright, hends, ← hfirst,
      ← hlast]
    show outside mem left right + contents mem (left + lanes.width) (right - lanes.width)
      + (((load lanes.width mem left).toList : Multiset α)
        + ((load lanes.width mem (right - lanes.width)).toList : Multiset α)) = _
    abel

/-- A sweep over a single register is finished by placing it: its own slots are the free ones. -/
theorem finished_placed_start (hone : left + lanes.width = right) :
    Finished test pivot init mem
      (placed lanes test pivot (load lanes.width mem left)
        (start lanes mem left right seen)) := by
  have htop : (start lanes mem left right seen).top = right := by
    show left + (right - left - lanes.width) + lanes.width = right
    omega
  refine finished_placed ?_ ?_ ?_ ?_ ?_
  · show right - left - lanes.width = 0
    omega
  · rw [htop]
    exact hright
  · rw [htop]
    exact hseparated
  · rw [htop]
    exact hseen.spread lanes
  · rw [htop, coe_toList_load (by omega), hone, add_comm]
    exact outside_add_contents mem (show left ≤ right by omega) hright

/-- A sweep over a positive number of whole registers, in an array that is separated outside of
them, finishes with the whole array separated. -/
theorem run_finished (hdvd : lanes.width ∣ right - left) (hlt : left < right) :
    Finished test pivot init mem (run lanes test pivot mem left right seen) := by
  have hpos := lanes.width_pos
  obtain ⟨k, hk⟩ := hdvd
  rw [run]
  split
  · exact finished_placed_start hright hseparated hseen (by omega)
  · -- with two registers held back, `n` registers are left for the loop
    obtain ⟨n, rfl⟩ : ∃ n, k = n + 2 := by
      match k, hk with
      | 0, hk => omega
      | 1, hk => omega
      | n + 2, _ => exact ⟨n, rfl⟩
    rw [Nat.mul_add, Nat.mul_comm, Nat.mul_comm lanes.width 2] at hk
    have hread : right - lanes.width = left + lanes.width + n * lanes.width := by omega
    have hcount : (right - lanes.width - (left + lanes.width)) / lanes.width = n := by
      rw [hread, Nat.add_sub_cancel_left]
      exact Nat.mul_div_cancel n hpos
    have hheld : Sound test pivot init mem _
        (holdEnds lanes (start lanes mem left right seen)).2.2 :=
      sound_holdEnds hright hseparated hseen (by omega)
    obtain ⟨hsteps, hleft⟩ := hheld.steps (Nat.le_of_eq hread.symm)
    have hrange : (holdEnds lanes (start lanes mem left right seen)).2.2.right -
        (holdEnds lanes (start lanes mem left right seen)).2.2.left = n * lanes.width :=
      Nat.sub_eq_of_eq_add' hread
    rw [hrange] at hleft
    rw [← hcount] at hsteps hleft
    exact hsteps.finish (Nat.add_right_cancel hleft)

end Run

end

end Sweep

end VectorizedSort
