import VectorizedSort.Proofs.Contents
import VectorizedSort.Proofs.Order

/-! # Cuts and short runs

What partitioning achieves is stated by cuts: positions that no element has to cross any more. An
array that has a cut at least every few slots is made of short runs. Cuts only depend on which
elements stand on either side, so rearranging one side keeps them. -/

namespace VectorizedSort

open Element

variable {α : Type} [Element α]

/-- Every element before the position is at most every element from there on. -/
def IsCut (v : Array α) (cut : Nat) : Prop :=
  ∀ x ∈ contents v 0 cut, ∀ y ∈ contents v cut v.size, le x y

theorem isCut_zero (v : Array α) : IsCut v 0 := by
  intro x hx
  rw [contents_self] at hx
  exact absurd hx (Multiset.notMem_zero x)

theorem isCut_size (v : Array α) : IsCut v v.size := by
  intro x _ y hy
  rw [contents_self] at hy
  exact absurd hy (Multiset.notMem_zero y)

/-- Elements on different sides of a cut stand in order. -/
theorem IsCut.le {v : Array α} {cut i j : Nat} (h : IsCut v cut) (hi : i < v.size)
    (hj : j < v.size) (hi_cut : i < cut) (hj_cut : cut ≤ j) : le v[i] v[j] :=
  h v[i] (mem_contents.mpr ⟨i, Nat.zero_le i, hi_cut, Array.getElem?_eq_getElem hi⟩)
    v[j] (mem_contents.mpr ⟨j, hj_cut, hj, Array.getElem?_eq_getElem hj⟩)

/-- A cut is one of every array with the same elements on either side. -/
theorem IsCut.congr {v w : Array α} {cut : Nat} (h : IsCut v cut)
    (hbefore : contents w 0 cut = contents v 0 cut)
    (hbehind : contents w cut w.size = contents v cut v.size) : IsCut w cut := by
  intro x hx y hy
  rw [hbefore] at hx
  rw [hbehind] at hy
  exact h x hx y hy

/-- Cuts outside of a rearranged slice stay cuts. -/
theorem IsCut.splice {v part : Array α} {cut lo hi : Nat} (h : IsCut v cut) (hlo : lo ≤ hi)
    (hhi : hi ≤ v.size) (hperm : part.Perm (slice v lo hi)) (hcut : cut ≤ lo ∨ hi ≤ cut) :
    IsCut (splice v lo part) cut := by
  have hsize : lo + part.size = hi := by
    rw [hperm.size_eq, size_slice v hhi]
    omega
  rcases hcut with hcut | hcut
  · -- the slice lies behind the cut as a whole, or before it
    refine h.congr (contents_splice_of_disjoint (Or.inl hcut)) ?_
    rw [size_splice, contents_splice_of_perm hlo hhi hperm hcut hhi]
  · refine h.congr (contents_splice_of_perm hlo hhi hperm (Nat.zero_le lo) hcut) ?_
    rw [size_splice, contents_splice_of_disjoint (Or.inr (hsize ▸ hcut))]

/-- Between two cuts, a position is a cut if it is one for the elements between them. -/
theorem isCut_inside {v : Array α} {lo cut hi : Nat} (hlo : IsCut v lo) (hhi : IsCut v hi)
    (hlo_cut : lo ≤ cut) (hcut_hi : cut ≤ hi) (hsize : hi ≤ v.size)
    (h : ∀ x ∈ contents v lo cut, ∀ y ∈ contents v cut hi, le x y) : IsCut v cut := by
  intro x hx y hy
  rw [← contents_add_contents v (Nat.zero_le lo) hlo_cut, Multiset.mem_add] at hx
  rw [← contents_add_contents v hcut_hi hsize, Multiset.mem_add] at hy
  -- unless both elements stand between the cuts, one of the cuts separates them
  rcases hx with hx | hx
  · refine hlo x hx y ?_
    rw [← contents_add_contents v (hlo_cut.trans hcut_hi) hsize,
      ← contents_add_contents v hlo_cut hcut_hi, Multiset.mem_add, Multiset.mem_add]
    rcases hy with hy | hy
    · exact Or.inl (Or.inr hy)
    · exact Or.inr hy
  · rcases hy with hy | hy
    · exact h x hx y hy
    · refine hhi x ?_ y hy
      rw [← contents_add_contents v (Nat.zero_le lo) (hlo_cut.trans hcut_hi),
        ← contents_add_contents v hlo_cut hcut_hi, Multiset.mem_add, Multiset.mem_add]
      exact Or.inr (Or.inl hx)

/-- In a slice between two cuts, a position of the slice is a cut if it is one inside the slice. -/
theorem isCut_splice {v part : Array α} {cut lo hi : Nat} (hlo : lo ≤ hi) (hhi : hi ≤ v.size)
    (hperm : part.Perm (slice v lo hi)) (hlo_cut : IsCut v lo) (hhi_cut : IsCut v hi)
    (hcut : cut ≤ part.size)
    (h : ∀ x ∈ contents part 0 cut, ∀ y ∈ contents part cut part.size, le x y) :
    IsCut (splice v lo part) (lo + cut) := by
  have hsize : lo + part.size = hi := by
    rw [hperm.size_eq, size_slice v hhi]
    omega
  have hfits : lo + part.size ≤ v.size := hsize ▸ hhi
  have hbefore : contents (splice v lo part) lo (lo + cut) = contents part 0 cut :=
    contents_splice_inside (a := 0) hfits hcut
  have hbehind : contents (splice v lo part) (lo + cut) hi = contents part cut part.size := by
    rw [← hsize]
    exact contents_splice_inside hfits (Nat.le_refl part.size)
  refine isCut_inside (hlo_cut.splice hlo hhi hperm (Or.inl (Nat.le_refl lo)))
    (hhi_cut.splice hlo hhi hperm (Or.inr (Nat.le_refl hi))) (Nat.le_add_right lo cut) (by omega)
    (by rwa [size_splice]) ?_
  rw [hbefore, hbehind]
  exact h

/-- A position lies in a stretch of at most `n` slots between two cuts. -/
def ShortRun (n : Nat) (v : Array α) (i : Nat) : Prop :=
  ∃ lo hi, IsCut v lo ∧ IsCut v hi ∧ lo ≤ i ∧ i < hi ∧ hi ≤ v.size ∧ hi ≤ lo + n

theorem ShortRun.mono {m n : Nat} {v : Array α} {i : Nat} (h : ShortRun m v i) (hmn : m ≤ n) :
    ShortRun n v i := by
  obtain ⟨lo, hi, hlo, hhi, hle, hlt, hsize, hlen⟩ := h
  exact ⟨lo, hi, hlo, hhi, hle, hlt, hsize, by omega⟩

/-- A slot between two neighbouring cuts is a short run of its own. -/
theorem ShortRun.single {n : Nat} {v : Array α} {i : Nat} (hn : 1 ≤ n) (hi : i < v.size)
    (h₁ : IsCut v i) (h₂ : IsCut v (i + 1)) : ShortRun n v i :=
  ⟨i, i + 1, h₁, h₂, Nat.le_refl i, Nat.lt_succ_self i, hi, Nat.add_le_add_left hn i⟩

/-- Short runs beside a rearranged slice stay short if the ends of the slice are cuts. -/
theorem ShortRun.splice {n : Nat} {v part : Array α} {i lo hi : Nat} (h : ShortRun n v i)
    (hlo : lo ≤ hi) (hhi : hi ≤ v.size) (hperm : part.Perm (slice v lo hi)) (hlo_cut : IsCut v lo)
    (hhi_cut : IsCut v hi) (hout : i < lo ∨ hi ≤ i) : ShortRun n (splice v lo part) i := by
  obtain ⟨left, right, hleft, hright, hleft_le, hlt_right, hsize, hlen⟩ := h
  have hkeep {cut : Nat} (hcut : IsCut v cut) (hside : cut ≤ lo ∨ hi ≤ cut) :
      IsCut (VectorizedSort.splice v lo part) cut := hcut.splice hlo hhi hperm hside
  rcases hout with hbefore | hbehind
  · -- a run that reaches into the slice is ended where the slice starts
    by_cases hreach : right ≤ lo
    · exact ⟨left, right, hkeep hleft (Or.inl (by omega)), hkeep hright (Or.inl hreach), hleft_le,
        hlt_right, by rwa [size_splice], hlen⟩
    · exact ⟨left, lo, hkeep hleft (Or.inl (by omega)), hkeep hlo_cut (Or.inl (Nat.le_refl lo)),
        hleft_le, hbefore, by rw [size_splice]; omega, by omega⟩
  · by_cases hreach : hi ≤ left
    · exact ⟨left, right, hkeep hleft (Or.inr hreach), hkeep hright (Or.inr (by omega)), hleft_le,
        hlt_right, by rwa [size_splice], hlen⟩
    · exact ⟨hi, right, hkeep hhi_cut (Or.inr (Nat.le_refl hi)), hkeep hright (Or.inr (by omega)),
        hbehind, hlt_right, by rwa [size_splice], by omega⟩

end VectorizedSort
