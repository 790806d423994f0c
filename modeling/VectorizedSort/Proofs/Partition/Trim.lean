import VectorizedSort.Partition.Trim
import VectorizedSort.Proofs.Contents
import VectorizedSort.Proofs.Partition.Extremes

/-! # Trimming separates what it looks at

A partition is open on a range `[lo, hi)` while everything left of it has failed the test and
everything right of it has passed. Trimming shortens the open range from both ends; the elements
outside of it are the ones the running extremes have met. -/

namespace VectorizedSort

variable {α : Type}

/-! ### The closed parts of an array -/

/-- The elements left of `lo` and from `hi` on. -/
def outside (v : Array α) (lo hi : Nat) : Multiset α := contents v 0 lo + contents v hi v.size

/-- Outside and inside of a range make up the array. -/
theorem outside_add_contents (v : Array α) {lo hi : Nat} (h₁ : lo ≤ hi) (h₂ : hi ≤ v.size) :
    outside v lo hi + contents v lo hi = (v.toList : Multiset α) := by
  rw [outside, add_right_comm, contents_add_contents v (Nat.zero_le lo) h₁,
    contents_add_contents v (Nat.zero_le hi) h₂, contents_full]

@[simp] theorem outside_full (v : Array α) : outside v 0 v.size = 0 := by
  rw [outside, contents_self, contents_self, add_zero]

variable [Element α]

/-- Everything left of `lo` fails the test, everything from `hi` on passes it. -/
structure Separated (test : Test) (pivot : α) (v : Array α) (lo hi : Nat) : Prop where
  failing : ∀ x ∈ contents v 0 lo, ¬ test.passes x pivot
  passing : ∀ x ∈ contents v hi v.size, test.passes x pivot

theorem separated_full (test : Test) (pivot : α) (v : Array α) :
    Separated test pivot v 0 v.size where
  failing x hx := by
    rw [contents_self] at hx
    exact absurd hx (Multiset.notMem_zero x)
  passing x hx := by
    rw [contents_self] at hx
    exact absurd hx (Multiset.notMem_zero x)

/-! ### One step -/

section Step

variable {test : Test} {pivot : α} {items : Array α} {left right : Nat}

/-- An element that fails closes its slot. -/
theorem Separated.extend_left (h : Separated test pivot items left right)
    (hleft : left < items.size) (hx : ¬ test.passes items[left] pivot) :
    Separated test pivot items (left + 1) right ∧
      outside items (left + 1) right = items[left] ::ₘ outside items left right := by
  have hcontents : contents items 0 (left + 1) = contents items 0 left + {items[left]} := by
    rw [← contents_add_contents items (Nat.zero_le left) (Nat.le_succ left),
      contents_succ items hleft]
  refine ⟨⟨fun x hmem => ?_, h.passing⟩, ?_⟩
  · rw [hcontents, Multiset.mem_add, Multiset.mem_singleton] at hmem
    rcases hmem with hmem | rfl
    · exact h.failing x hmem
    · exact hx
  · rw [outside, outside, hcontents, add_right_comm, add_comm, Multiset.singleton_add]

/-- An element that passes closes the last open slot, after changing places with what is there. -/
theorem Separated.extend_right (h : Separated test pivot items left right)
    (hleft : left < right) (hright : right ≤ items.size)
    (hx : test.passes items[left] pivot) :
    Separated test pivot (items.swap left (right - 1)) left (right - 1) ∧
      outside (items.swap left (right - 1)) left (right - 1) =
        items[left] ::ₘ outside items left right := by
  have hbelow : contents (items.swap left (right - 1)) 0 left = contents items 0 left := by
    apply contents_congr
    intro i _ hi
    rw [Array.getElem?_swap, if_neg (by omega), if_neg (by omega)]
  have habove : contents (items.swap left (right - 1)) (right - 1) items.size
      = {items[left]} + contents items right items.size := by
    have hlast : contents (items.swap left (right - 1)) (right - 1) (right - 1 + 1)
        = {items[left]} := by
      rw [contents_succ _ (by rw [Array.size_swap]; omega), Array.getElem_swap_right]
    rw [Nat.sub_add_cancel (by omega)] at hlast
    rw [← contents_add_contents _ (Nat.sub_le right 1) hright, hlast]
    congr 1
    apply contents_congr
    intro i hi _
    rw [Array.getElem?_swap, if_neg (by omega), if_neg (by omega)]
  refine ⟨⟨fun x hmem => ?_, fun x hmem => ?_⟩, ?_⟩
  · rw [hbelow] at hmem
    exact h.failing x hmem
  · rw [Array.size_swap, habove, Multiset.mem_add, Multiset.mem_singleton] at hmem
    rcases hmem with rfl | hmem
    · exact hx
    · exact h.passing x hmem
  · rw [outside, outside, Array.size_swap, hbelow, habove, add_left_comm, Multiset.singleton_add]

end Step

/-! ### The whole trimming -/

/-- A trimmed array is a rearrangement of the given one, separated outside its open range, and its
extremes are those of the elements outside. -/
structure Trimmed.Sound (test : Test) (pivot : α) (init : Extremes α) (v : Array α)
    (t : Trimmed α) : Prop where
  perm : t.items.Perm v
  separated : Separated test pivot t.items t.left t.right
  seen : t.seen.Of init (outside t.items t.left t.right)

theorem trim_sound (test : Test) (pivot : α) (init : Extremes α) (v : Array α) (count : Nat)
    (items : Array α) (left right : Nat) (seen : Extremes α) (hcount : left + count ≤ right)
    (hright : right ≤ items.size)
    (h : Trimmed.Sound test pivot init v ⟨items, left, right, seen⟩) :
    Trimmed.Sound test pivot init v
      (trim test pivot count items left right seen hcount hright) := by
  induction count generalizing items left right seen with
  | zero => exact h
  | succ count ih =>
    have hlt : left < right := by omega
    rw [trim]
    split
    · -- the slot of a passing element stays open for what comes from the right end
      rename_i hpass
      obtain ⟨hsep, hout⟩ := h.separated.extend_right hlt hright hpass
      refine ih _ _ _ _ _ _ ⟨(Array.swap_perm _ _).trans h.perm, hsep, ?_⟩
      rw [hout]
      exact h.seen.absorb _
    · rename_i hfail
      obtain ⟨hsep, hout⟩ := h.separated.extend_left (Nat.lt_of_lt_of_le hlt hright) hfail
      refine ih _ _ _ _ _ _ ⟨h.perm, hsep, ?_⟩
      rw [hout]
      exact h.seen.absorb _

end VectorizedSort
