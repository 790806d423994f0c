import VectorizedSort.Element.Binary32
import VectorizedSort.Entry.Typed
import VectorizedSort.Proofs.Sort.Insertion
import VectorizedSort.Proofs.Sort.Network
import VectorizedSort.Proofs.Sort.Quick

/-! # The whole sort

Insertion, partitioning, heapsort and the exchange network together: the sort never fails on an
array that fits into memory, always rearranges, and sorts ordered elements on every lane set. -/

namespace VectorizedSort

variable {α : Type} [Element α]

/-! ### Arrays without NaN -/

/-- Integers are always ordered. -/
theorem allOrdered_of_isInteger (h : (Element.kind α).isInteger) (v : Array α) : AllOrdered v :=
  fun x _ => Element.isOrdered_of_isInteger h x

/-- Floats are ordered unless one of them is a NaN. -/
theorem allOrdered_iff_not_isNaN {v : Array Binary32} :
    AllOrdered v ↔ ∀ x ∈ v, x.isNaN = false := by
  have hkey (x : Binary32) : Element.isOrdered x ↔ x.isNaN = false := by
    show (Binary32.orderKey x).isSome ↔ _
    rw [Binary32.orderKey]
    cases x.isNaN <;> simp
  exact forall₂_congr fun x _ => hkey x

/-! ### The sort -/

theorem two_mul_log2_le {n : Nat} (h : n < 2 ^ 64) : 2 * n.log2 ≤ 126 := by
  rcases Nat.eq_zero_or_pos n with rfl | hpos
  · decide
  · have hlog := (Nat.log2_lt (Nat.ne_of_gt hpos)).mpr h
    omega

/-- Two levels for each bit of the length are fewer than the work stack has room for. -/
theorem two_mul_log2_lt {n : Nat} (h : n < 2 ^ 64) : 2 * n.log2 < stackCapacity :=
  Nat.lt_of_le_of_lt (two_mul_log2_le h) (by decide)

/-- The runs that a quicksort leaves are finished by the network. -/
theorem quickSort_exchangeSort (lanes : Lanes) (v : Array α) {limit : Nat}
    (hlimit : limit < stackCapacity) :
    ∃ runs, quickSort lanes v limit = .ok runs ∧ (exchangeSort lanes runs).Perm v ∧
      (AllOrdered v → Nondecreasing (exchangeSort lanes runs)) := by
  obtain ⟨runs, hok, hperm, hruns⟩ := quickSort_runs lanes v hlimit
  refine ⟨runs, hok, (exchangeSort_perm lanes runs).trans hperm, fun hv => ?_⟩
  exact nondecreasing_exchangeSort lanes (hv.of_perm hperm) fun i hi =>
    (hruns hv i hi).mono (Nat.le_succ runThreshold)

theorem sortArray_ok (lanes : Lanes) {v : Array α} (hsize : v.size < 2 ^ 64) :
    ∃ w, sortArray lanes v = .ok w ∧ w.Perm v ∧ (AllOrdered v → Nondecreasing w) := by
  rw [sortArray]
  split
  · -- arrays of one element are left alone
    split
    · rename_i htwo
      obtain ⟨w, hok, hperm⟩ :=
        insertionSort_perm (v := v) Nat.one_ne_zero (Nat.le_of_succ_le htwo)
      exact ⟨w, hok, hperm, fun hv => nondecreasing_insertionSort hv hok⟩
    · rename_i hone
      exact ⟨v, rfl, .rfl, fun _ i hi => absurd hi (by omega)⟩
  · obtain ⟨runs, hok, hperm, hsorted⟩ := quickSort_exchangeSort lanes v (two_mul_log2_lt hsize)
    rw [hok]
    exact ⟨_, rfl, hperm, hsorted⟩

/-! ### Entry points -/

theorem sortOn_ok (cpu : Cpu) (backend : Backend) {v : Array α} (hsize : v.size < 2 ^ 64) :
    ∃ sorted, sortOn cpu backend v = .ok sorted ∧ sorted.value.Perm v ∧
      (AllOrdered v → Nondecreasing sorted.value) := by
  obtain ⟨w, hok, hw⟩ := sortArray_ok (cpu.lanes backend) hsize
  rw [sortOn, hok]
  exact ⟨_, rfl, hw⟩

theorem sort_ok (host : Host) {v : Array α} (hsize : v.size < 2 ^ 64) :
    ∃ sorted, sort host v = .ok sorted ∧ sorted.value.Perm v ∧
      (AllOrdered v → Nondecreasing sorted.value) :=
  sortOn_ok host.cpu host.selected hsize

theorem sortWith_ok {cpu : Cpu} {lanes : Lanes} (hcpu : cpu.supports lanes.backend) {v : Array α}
    (hsize : v.size < 2 ^ 64) :
    ∃ w, sortWith cpu lanes v = .ok w ∧ w.Perm v ∧ (AllOrdered v → Nondecreasing w) := by
  rw [sortWith, if_pos hcpu]
  exact sortArray_ok lanes hsize

/-- Every entry point sorts every array of integers and every array of ordered floats, on every
backend and lane set. The length of an array is a machine word. Quicksort and network sort with any
number of levels that the work stack has room for. -/
theorem sort_nondecreasing {v : Array α} (hv : (Element.kind α).isInteger ∨ AllOrdered v) :
    (v.size < 2 ^ 64 →
      (∀ host : Host, ∃ sorted, sort host v = .ok sorted ∧ Nondecreasing sorted.value ∧
        sorted.value.Perm v) ∧
      (∀ (cpu : Cpu) (backend : Backend), ∃ sorted, sortOn cpu backend v = .ok sorted ∧
        Nondecreasing sorted.value ∧ sorted.value.Perm v) ∧
      ∀ (cpu : Cpu) (lanes : Lanes), cpu.supports lanes.backend →
        ∃ w, sortWith cpu lanes v = .ok w ∧ Nondecreasing w ∧ w.Perm v) ∧
    ∀ (lanes : Lanes) (limit : Nat), limit ≤ 129 →
      ∃ runs, quickSort lanes v limit = .ok runs ∧ Nondecreasing (exchangeSort lanes runs) ∧
        (exchangeSort lanes runs).Perm v := by
  have hv : AllOrdered v := hv.elim (fun hint => allOrdered_of_isInteger hint v) id
  refine ⟨fun hsize => ⟨?_, ?_, ?_⟩, ?_⟩
  · intro host
    obtain ⟨sorted, hok, hperm, hsorted⟩ := sort_ok host hsize
    exact ⟨sorted, hok, hsorted hv, hperm⟩
  · intro cpu backend
    obtain ⟨sorted, hok, hperm, hsorted⟩ := sortOn_ok cpu backend hsize
    exact ⟨sorted, hok, hsorted hv, hperm⟩
  · intro cpu lanes hcpu
    obtain ⟨w, hok, hperm, hsorted⟩ := sortWith_ok hcpu hsize
    exact ⟨w, hok, hsorted hv, hperm⟩
  · intro lanes limit hlimit
    obtain ⟨runs, hok, hperm, hsorted⟩ :=
      quickSort_exchangeSort lanes v (Nat.lt_succ_of_le hlimit)
    exact ⟨runs, hok, hsorted hv, hperm⟩

/-- Both infinities and both zeros are ordered. With one level to spend, floats of growing magnitude
and alternating sign are partitioned once and then heapsorted. -/
theorem sort_nondecreasing_of_floats :
    let v : Array Binary32 := #[.infinity, ⟨0x80000000⟩, .negInfinity] ++
      (Array.range 70).map fun i => ⟨UInt32.ofNat i * 0x81000001⟩
    AllOrdered v ∧ v.size < 2 ^ 64 ∧
      (∃ w, sortWith ⟨true⟩ .avx2 v = .ok w ∧ Nondecreasing w) ∧
      ∃ runs, quickSort (.portable 3 (by decide)) v 1 = .ok runs ∧
        Nondecreasing (exchangeSort (.portable 3 (by decide)) runs) := by
  intro v
  have hv : AllOrdered v := allOrdered_iff_not_isNaN.mpr (by decide +kernel)
  have hsize : v.size < 2 ^ 64 := by decide +kernel
  obtain ⟨hentries, hlevels⟩ := sort_nondecreasing (Or.inr hv)
  obtain ⟨-, -, hwith⟩ := hentries hsize
  obtain ⟨w, hok, hsorted, -⟩ := hwith ⟨true⟩ .avx2 rfl
  obtain ⟨runs, hruns, hfinished, -⟩ := hlevels (.portable 3 (by decide)) 1 (by decide)
  exact ⟨hv, hsize, ⟨w, hok, hsorted⟩, runs, hruns, hfinished⟩

end VectorizedSort
