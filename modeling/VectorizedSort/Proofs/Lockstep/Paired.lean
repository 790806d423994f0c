import Mathlib.Data.List.Forall2
import VectorizedSort.Fault
import VectorizedSort.Partition.Basic
import VectorizedSort.Proofs.Contents
import VectorizedSort.Proofs.Order

/-! # Paired arrays

Two runs on different elements are compared through a relation between the elements under which
every comparison has the same outcome. Two arrays are paired if they are related slot by slot.
Whatever only moves elements keeps arrays paired, and whatever only compares them decides alike. -/

namespace VectorizedSort

open Element

variable {α β : Type}

/-! ### Comparisons -/

section Comparisons

variable [Element α] [Element β]

/-- A relation between elements that no comparison can tell apart. -/
structure ComparesAlike (R : α → β → Prop) : Prop where
  isOrdered_eq {a : α} {b : β} : R a b → isOrdered a = isOrdered b
  lt_eq {a a' : α} {b b' : β} : R a b → R a' b' → lt a a' = lt b b'

/-- On ordered elements `le` is the complement of `lt` the other way round. -/
theorem le_eq_not_lt (a b : α) : le a b = (isOrdered a && isOrdered b && !lt b a) := by
  rw [Bool.eq_iff_iff, Bool.and_eq_true, Bool.and_eq_true, Bool.not_eq_true']
  constructor
  · intro hle
    have ha := isOrdered_left_of_le hle
    have hb := isOrdered_right_of_le hle
    exact ⟨⟨ha, hb⟩, Bool.eq_false_of_not_eq_true ((not_lt_iff_le hb ha).mpr hle)⟩
  · rintro ⟨⟨ha, hb⟩, hlt⟩
    exact (not_lt_iff_le hb ha).mp (Bool.not_eq_true _ ▸ hlt)

theorem eqv_eq_le_and_le (a b : α) : eqv a b = (le a b && le b a) := by
  rw [Bool.eq_iff_iff, Bool.and_eq_true]
  exact eqv_iff_le_le

/-- Elements of one type compare like themselves. -/
theorem comparesAlike_eq : ComparesAlike (Eq : α → α → Prop) where
  isOrdered_eq := by
    rintro a _ rfl
    rfl
  lt_eq := by
    rintro a a' _ _ rfl rfl
    rfl

namespace ComparesAlike

variable {R : α → β → Prop} (hR : ComparesAlike R) {a a' : α} {b b' : β}

include hR

theorem le_eq (h : R a b) (h' : R a' b') : le a a' = le b b' := by
  rw [le_eq_not_lt, le_eq_not_lt, hR.isOrdered_eq h, hR.isOrdered_eq h', hR.lt_eq h' h]

theorem eqv_eq (h : R a b) (h' : R a' b') : eqv a a' = eqv b b' := by
  rw [eqv_eq_le_and_le, eqv_eq_le_and_le, hR.le_eq h h', hR.le_eq h' h]

theorem passes_eq (test : Test) (h : R a b) (h' : R a' b') :
    test.passes a a' = test.passes b b' := by
  cases test with
  | atLeast => exact hR.le_eq h' h
  | above => exact hR.lt_eq h' h

end ComparesAlike

end Comparisons

/-! ### Arrays -/

/-- Two arrays of one length that are related slot by slot. -/
structure Paired (R : α → β → Prop) (v : Array α) (w : Array β) : Prop where
  size_eq : v.size = w.size
  getElem : ∀ (i : Nat) (hv : i < v.size) (hw : i < w.size), R v[i] w[i]

namespace Paired

variable {R : α → β → Prop} {v : Array α} {w : Array β}

/-- The two arrays as related lists. -/
theorem forall₂_toList (h : Paired R v w) : List.Forall₂ R v.toList w.toList := by
  rw [List.forall₂_iff_get]
  refine ⟨by rw [Array.length_toList, Array.length_toList, h.size_eq], fun i hv hw => ?_⟩
  exact h.getElem i hv hw

/-- What holds of all elements of one array holds of all elements of the other. -/
theorem forall_mem_iff {p : α → Prop} {q : β → Prop} (h : Paired R v w)
    (hpq : ∀ a b, R a b → (p a ↔ q b)) : (∀ a ∈ v, p a) ↔ ∀ b ∈ w, q b := by
  rw [Array.forall_mem_iff_forall_getElem, Array.forall_mem_iff_forall_getElem]
  constructor
  · intro hp i hi
    exact (hpq _ _ (h.getElem i (h.size_eq ▸ hi) hi)).mp (hp i (h.size_eq ▸ hi))
  · intro hq i hi
    exact (hpq _ _ (h.getElem i hi (h.size_eq ▸ hi))).mpr (hq i (h.size_eq ▸ hi))

/-! ### Moving elements -/

theorem setIfInBounds (h : Paired R v w) {a : α} {b : β} (hab : R a b) (i : Nat) :
    Paired R (v.setIfInBounds i a) (w.setIfInBounds i b) := by
  refine ⟨by rw [Array.size_setIfInBounds, Array.size_setIfInBounds, h.size_eq], ?_⟩
  intro k hv hw
  rw [Array.size_setIfInBounds] at hv hw
  rw [Array.getElem_setIfInBounds hv, Array.getElem_setIfInBounds hw]
  by_cases hk : i = k
  · rwa [if_pos hk, if_pos hk]
  · rw [if_neg hk, if_neg hk]
    exact h.getElem k hv hw

theorem swap (h : Paired R v w) {i j : Nat} (hi : i < v.size) (hj : j < v.size) (hi' : i < w.size)
    (hj' : j < w.size) : Paired R (v.swap i j hi hj) (w.swap i j hi' hj') := by
  refine ⟨by rw [Array.size_swap, Array.size_swap, h.size_eq], ?_⟩
  intro k hv hw
  rw [Array.size_swap] at hv hw
  rw [Array.getElem_swap, Array.getElem_swap]
  by_cases hki : k = i
  · rw [if_pos hki, if_pos hki]
    exact h.getElem j hj hj'
  · rw [if_neg hki, if_neg hki]
    by_cases hkj : k = j
    · rw [if_pos hkj, if_pos hkj]
      exact h.getElem i hi hi'
    · rw [if_neg hkj, if_neg hkj]
      exact h.getElem k hv hw

theorem swapIfInBounds (h : Paired R v w) (i j : Nat) :
    Paired R (v.swapIfInBounds i j) (w.swapIfInBounds i j) := by
  have hsize := h.size_eq
  rw [Array.swapIfInBounds_def, Array.swapIfInBounds_def]
  by_cases hi : i < v.size
  · have hi' : i < w.size := hsize ▸ hi
    rw [dif_pos hi, dif_pos hi']
    by_cases hj : j < v.size
    · have hj' : j < w.size := hsize ▸ hj
      rw [dif_pos hj, dif_pos hj']
      exact h.swap hi hj hi' hj'
    · rwa [dif_neg hj, dif_neg (hsize ▸ hj)]
  · rwa [dif_neg hi, dif_neg (hsize ▸ hi)]

theorem slice (h : Paired R v w) (lo hi : Nat) :
    Paired R (VectorizedSort.slice v lo hi) (VectorizedSort.slice w lo hi) := by
  refine ⟨by simp [VectorizedSort.slice, h.size_eq], fun k hv hw => ?_⟩
  simp only [VectorizedSort.slice, Array.getElem_extract]
  exact h.getElem _ _ _

theorem writeList (h : Paired R v w) (pos : Nat) {xs : List α} {ys : List β}
    (hxs : List.Forall₂ R xs ys) :
    Paired R (VectorizedSort.writeList v pos xs) (VectorizedSort.writeList w pos ys) := by
  induction hxs generalizing v w pos with
  | nil => exact h
  | cons hxy _ ih => exact ih (h.setIfInBounds hxy pos) (pos + 1)

theorem splice (h : Paired R v w) (lo : Nat) {part : Array α} {part' : Array β}
    (hpart : Paired R part part') :
    Paired R (VectorizedSort.splice v lo part) (VectorizedSort.splice w lo part') :=
  h.writeList lo hpart.forall₂_toList

end Paired

/-! ### Outcomes -/

/-- Two runs that both end with related results, or both fail for the same reason. -/
inductive SameOutcome {γ δ : Type} (S : γ → δ → Prop) : Except Fault γ → Except Fault δ → Prop
  | ok {c : γ} {d : δ} : S c d → SameOutcome S (.ok c) (.ok d)
  | error (fault : Fault) : SameOutcome S (.error fault) (.error fault)

namespace SameOutcome

variable {γ δ : Type} {S : γ → δ → Prop} {r' : Except Fault δ}

/-- A run that succeeds has a partner that succeeds. -/
theorem exists_ok {c : γ} (h : SameOutcome S (.ok c) r') : ∃ d, r' = .ok d ∧ S c d := by
  cases h with
  | ok hcd => exact ⟨_, rfl, hcd⟩

/-- A run that fails has a partner that fails for the same reason. -/
theorem eq_error {fault : Fault} (h : SameOutcome S (.error fault) r') : r' = .error fault := by
  cases h with
  | error => rfl

end SameOutcome

/-! ### Equality and images -/

theorem paired_eq_self (v : Array α) : Paired Eq v v :=
  ⟨rfl, fun _ _ _ => rfl⟩

theorem Paired.eq {v w : Array α} (h : Paired Eq v w) : v = w :=
  Array.ext h.size_eq h.getElem

/-- An element of an array and its image. -/
def ImageIn (f : α → β) (v : Array α) (a : α) (b : β) : Prop := a ∈ v ∧ b = f a

variable {f : α → β} {v : Array α}

theorem paired_map : Paired (ImageIn f v) v (v.map f) :=
  ⟨Array.size_map.symm, fun _ hv _ => ⟨Array.getElem_mem hv, Array.getElem_map ..⟩⟩

theorem Paired.eq_map {u : Array α} {w : Array β} (h : Paired (ImageIn f v) u w) : w = u.map f := by
  refine Array.ext (by rw [Array.size_map, h.size_eq]) fun i hw hu => ?_
  rw [Array.getElem_map]
  exact (h.getElem i (Array.size_map ▸ hu) hw).2

/-- If related results are images, the second outcome is the image of the first one. -/
theorem SameOutcome.eq_map {γ δ : Type} {S : γ → δ → Prop} {r : Except Fault γ}
    {r' : Except Fault δ} {g : γ → δ} (h : SameOutcome S r r') (hS : ∀ c d, S c d → d = g c) :
    r' = r.map g := by
  cases h with
  | ok hcd => exact congrArg Except.ok (hS _ _ hcd)
  | error fault => rfl

end VectorizedSort
