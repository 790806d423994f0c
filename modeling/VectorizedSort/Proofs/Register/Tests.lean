import Mathlib.Data.Multiset.Filter
import VectorizedSort.Partition.Basic
import VectorizedSort.Proofs.Order
import VectorizedSort.Proofs.Register.Stores

/-! # Tests of whole registers

A register is tested lane by lane, so that against a broadcast pivot the selected lanes are exactly
the elements that pass. The shuffles have no `≥` on integers and complement the reversed `>`, which
agrees because integers are ordered. -/

namespace VectorizedSort

variable {α : Type} [Element α]

theorem Scalar.getElem_atLeast {width : Nat} (a b : Register α width) (i : Nat) (h : i < width) :
    (Scalar.atLeast a b)[i] = Element.le b[i] a[i] := by
  rw [Scalar.atLeast, Vector.getElem_zipWith]

theorem Shuffle.getElem_atLeast (a b : Register α 8) (i : Nat) (h : i < 8) :
    (Shuffle.atLeast a b)[i] = Element.le b[i] a[i] := by
  unfold Shuffle.atLeast
  split
  · rename_i hint
    have hle := Element.not_le_iff_lt (Element.isOrdered_of_isInteger hint b[i])
      (Element.isOrdered_of_isInteger hint a[i])
    rw [Shuffle.complement, Shuffle.above, Vector.getElem_zipWith, Vector.getElem_zipWith,
      broadcast, Vector.getElem_replicate, Bool.xor_true]
    cases hlt : Element.lt a[i] b[i]
    · rw [hlt, Bool.false_eq_true, iff_false, Classical.not_not] at hle
      rw [hle, Bool.not_false]
    · rw [hlt, eq_self, iff_true, Bool.not_eq_true] at hle
      rw [hle, Bool.not_true]
  · rw [Vector.getElem_zipWith]

namespace Test

/-- A lane is selected if its element passes the test against the same lane of the pivots. -/
theorem getElem_mask (test : Test) (lanes : Lanes) (reg pivots : Register α lanes.width) (i : Nat)
    (h : i < lanes.width) : (test.mask lanes reg pivots)[i] = test.passes reg[i] pivots[i] := by
  cases test with
  | atLeast =>
    cases lanes with
    | portable width width_pos => exact Scalar.getElem_atLeast reg pivots i h
    | avx2 => exact Shuffle.getElem_atLeast reg pivots i h
  | above =>
    cases lanes with
    | portable width width_pos => exact Vector.getElem_zipWith h
    | avx2 => exact Vector.getElem_zipWith h

theorem taggedLanes_mask (test : Test) (lanes : Lanes) (reg : Register α lanes.width) (pivot : α) :
    taggedLanes (test.mask lanes reg (broadcast lanes.width pivot)) reg =
      reg.toList.map fun x => (test.passes x pivot, x) := by
  apply List.ext_getElem
  · simp [taggedLanes]
  · intro i h₁ h₂
    simp [taggedLanes, getElem_mask, broadcast]

end Test

/-! ### Lists split by a test -/

/-- The elements of a list that pass a test, in their order. -/
def passing (test : Test) (pivot : α) (xs : List α) : List α :=
  xs.filter fun x => test.passes x pivot

/-- The elements of a list that fail a test, in their order. -/
def failing (test : Test) (pivot : α) (xs : List α) : List α :=
  xs.filter fun x => !test.passes x pivot

theorem passes_of_mem_passing {test : Test} {pivot x : α} {xs : List α}
    (h : x ∈ passing test pivot xs) : test.passes x pivot :=
  (List.mem_filter.mp h).2

theorem not_passes_of_mem_failing {test : Test} {pivot x : α} {xs : List α}
    (h : x ∈ failing test pivot xs) : ¬ test.passes x pivot := by
  have := (List.mem_filter.mp h).2
  simpa using this

/-- Every element is on one of the two sides. -/
theorem coe_failing_add_coe_passing (test : Test) (pivot : α) (xs : List α) :
    (failing test pivot xs : Multiset α) + (passing test pivot xs : Multiset α) = xs := by
  rw [Multiset.coe_add, Multiset.coe_eq_coe]
  have hsplit := List.filter_append_perm (fun x => !test.passes x pivot) xs
  simpa [failing, passing] using hsplit

theorem length_failing_add_length_passing (test : Test) (pivot : α) (xs : List α) :
    (failing test pivot xs).length + (passing test pivot xs).length = xs.length := by
  have hcard := congrArg Multiset.card (coe_failing_add_coe_passing test pivot xs)
  rwa [Multiset.card_add, Multiset.coe_card, Multiset.coe_card, Multiset.coe_card] at hcard

variable (test : Test) (lanes : Lanes) (reg : Register α lanes.width) (pivot : α)

/-- The selected lanes are the elements that pass. -/
theorem selectedOf_mask :
    selectedOf (taggedLanes (test.mask lanes reg (broadcast lanes.width pivot)) reg) =
      passing test pivot reg.toList := by
  rw [Test.taggedLanes_mask, selectedOf, List.filter_map, List.map_map]
  exact List.map_id _

/-- The unselected lanes are the elements that fail. -/
theorem unselectedOf_mask :
    unselectedOf (taggedLanes (test.mask lanes reg (broadcast lanes.width pivot)) reg) =
      failing test pivot reg.toList := by
  rw [Test.taggedLanes_mask, unselectedOf, List.filter_map, List.map_map]
  exact List.map_id _

end VectorizedSort
