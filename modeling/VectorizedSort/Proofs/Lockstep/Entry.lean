import VectorizedSort.Proofs.Lockstep.Quick
import VectorizedSort.Proofs.Partition.Pivots
import VectorizedSort.Proofs.Sort.Whole

/-! # Comparisons alone decide

Every position that an element moves to is decided by comparisons. So a map that keeps all
comparisons between the elements of an array can be applied before a call or after it, also if it
leads to another kind of element with other seeds for the running extremes. -/

namespace VectorizedSort

open Element

variable {α β : Type} [Element α] [Element β]

/-! ### Calls on paired arrays -/

section Calls

variable {R : α → β → Prop} (hR : ComparesAlike R) {cpu : Cpu} {lanes lanes' : Lanes}
  (hcpu : cpu.supports lanes.backend) (hcpu' : cpu.supports lanes'.backend)
  (hwidth : lanes.width = lanes'.width) {v : Array α} {w : Array β} (h : Paired R v w)

include hR hcpu hcpu' hwidth h

theorem sortWith_alike : SameOutcome (Paired R) (sortWith cpu lanes v) (sortWith cpu lanes' w) := by
  rw [sortWith, sortWith, if_pos hcpu, if_pos hcpu']
  exact sortArray_alike hR hwidth h

theorem partitionWith_alike (i j : Nat) :
    SameOutcome (Bands.Alike R) (partitionWith cpu lanes v i j) (partitionWith cpu lanes' w i j) := by
  rw [partitionWith, partitionWith, if_pos hcpu, if_pos hcpu']
  by_cases hinside : i < v.size ∧ j < v.size
  · have hinside' : i < w.size ∧ j < w.size := h.size_eq ▸ hinside
    rw [dif_pos hinside, dif_pos hinside']
    exact .ok (partitionBands_alike hR hwidth h hinside.1 hinside'.1 hinside.2 hinside'.2)
  · rw [dif_neg hinside, dif_neg (h.size_eq ▸ hinside), ← h.size_eq]
    exact .error _

end Calls

/-! ### Calls that end -/

section Ends

variable {cpu : Cpu} {lanes : Lanes} {v : Array α}

theorem sortWith_isOk (hcpu : cpu.supports lanes.backend) (hsize : v.size < 2 ^ 64) :
    (sortWith cpu lanes v).isOk := by
  obtain ⟨w, hok, -⟩ := sortWith_ok hcpu hsize
  rw [hok]
  rfl

theorem partitionWith_isOk (hcpu : cpu.supports lanes.backend) {i j : Nat} (hi : i < v.size)
    (hj : j < v.size) : (partitionWith cpu lanes v i j).isOk := by
  rw [partitionWith_of_lt hcpu hi hj]
  rfl

variable (lanes v) in
theorem quickSort_isOk {limit : Nat} (hlimit : limit ≤ 129) : (quickSort lanes v limit).isOk := by
  obtain ⟨w, hok, -⟩ := quickSort_runs lanes v (Nat.lt_succ_of_le hlimit)
  rw [hok]
  rfl

theorem insertionSort_isOk {offset : Nat} (hpos : offset ≠ 0) (hle : offset ≤ v.size) :
    (insertionSort v offset).isOk := by
  obtain ⟨w, hok, -⟩ := insertionSort_perm hpos hle
  rw [hok]
  rfl

end Ends

/-! ### Maps that keep the order -/

/-- A map that no comparison between two elements of an array notices. -/
structure KeepsOrder (f : α → β) (v : Array α) : Prop where
  isOrdered_iff : ∀ x ∈ v, isOrdered (f x) ↔ isOrdered x
  lt_iff : ∀ x ∈ v, ∀ y ∈ v, lt (f x) (f y) ↔ lt x y

theorem KeepsOrder.comparesAlike {f : α → β} {v : Array α} (hf : KeepsOrder f v) :
    ComparesAlike (ImageIn f v) where
  isOrdered_eq := by
    rintro a _ ⟨ha, rfl⟩
    rw [Bool.eq_iff_iff, hf.isOrdered_iff a ha]
  lt_eq := by
    rintro a a' _ _ ⟨ha, rfl⟩ ⟨ha', rfl⟩
    rw [Bool.eq_iff_iff, hf.lt_iff a ha a' ha']

/-- The bands of the images. -/
def Bands.map (f : α → β) (bands : Bands α) : Bands β :=
  ⟨bands.items.map f, bands.lower, bands.upper⟩

omit [Element α] [Element β] in
theorem Bands.Alike.eq_map {f : α → β} {v : Array α} {bands : Bands α} {bands' : Bands β}
    (h : Bands.Alike (ImageIn f v) bands bands') : bands' = bands.map f := by
  obtain ⟨items, lower, upper⟩ := bands'
  obtain ⟨hitems, hlower, hupper⟩ := h
  cases hlower
  cases hupper
  rw [Bands.map, ← hitems.eq_map]

/-- A map that keeps the order of the elements of an array commutes with every call on it, at one
register width. Each call either ends on both arrays, the second time with the image of the first
result and with the same bounds, or fails on both for the same reason. -/
theorem calls_commute_with_map {f : α → β} {v : Array α} (hf : KeepsOrder f v)
    {lanes lanes' : Lanes} (hwidth : lanes.width = lanes'.width) :
    (∀ cpu : Cpu, cpu.supports lanes.backend → cpu.supports lanes'.backend →
      sortWith cpu lanes' (v.map f) = (sortWith cpu lanes v).map (Array.map f) ∧
      (v.size < 2 ^ 64 → (sortWith cpu lanes v).isOk) ∧
      ∀ i j, partitionWith cpu lanes' (v.map f) i j =
          (partitionWith cpu lanes v i j).map (Bands.map f) ∧
        (i < v.size → j < v.size → (partitionWith cpu lanes v i j).isOk)) ∧
    (∀ limit, quickSort lanes' (v.map f) limit = (quickSort lanes v limit).map (Array.map f) ∧
      (limit ≤ 129 → (quickSort lanes v limit).isOk)) ∧
    heapSort (v.map f) = (heapSort v).map f ∧
    (∀ offset, insertionSort (v.map f) offset = (insertionSort v offset).map (Array.map f) ∧
      (offset ≠ 0 → offset ≤ v.size → (insertionSort v offset).isOk)) ∧
    exchangeSort lanes' (v.map f) = (exchangeSort lanes v).map f := by
  have hR := hf.comparesAlike
  have hv : Paired (ImageIn f v) v (v.map f) := paired_map
  refine ⟨?_, ?_, ?_, ?_, ?_⟩
  · intro cpu hcpu hcpu'
    have hsort := sortWith_alike hR hcpu hcpu' hwidth hv
    refine ⟨hsort.eq_map fun _ _ hw => hw.eq_map, sortWith_isOk hcpu, ?_⟩
    intro i j
    have hpartition := partitionWith_alike hR hcpu hcpu' hwidth hv i j
    exact ⟨hpartition.eq_map fun _ _ hbands => hbands.eq_map, partitionWith_isOk hcpu⟩
  · intro limit
    have hquick := quickSort_alike hR hwidth hv limit
    exact ⟨hquick.eq_map fun _ _ hw => hw.eq_map, quickSort_isOk lanes v⟩
  · exact (heapSort_paired hR hv).eq_map
  · intro offset
    have hinsertion := insertionSort_paired hR hv offset
    exact ⟨hinsertion.eq_map fun _ _ hw => hw.eq_map, insertionSort_isOk⟩
  · exact (exchangeSort_paired hR hv lanes lanes').eq_map

/-- Neither the sign of a zero nor the payload of a NaN is noticed, and integers may become floats,
the extreme ones infinities. -/
theorem calls_commute_with_map_of_relabelled :
    let f : Binary32 → Binary32 := fun x =>
      if x.isNaN then .quietNaN else if x.magnitude = 0 then ⟨x.bits ^^^ 0x80000000⟩ else x
    let v : Array Binary32 := #[⟨0⟩, ⟨0xff800001⟩, .negInfinity, ⟨0x80000000⟩, ⟨0x3f800000⟩]
    let g : Int32 → Binary32 := fun x =>
      if x = Int32.minValue then .negInfinity else if x = Int32.maxValue then .infinity else ⟨0⟩
    let u : Array Int32 := (Array.replicate 4 #[7, Int32.maxValue, Int32.minValue, 7]).flatten
    KeepsOrder f v ∧ heapSort (v.map f) = (heapSort v).map f ∧ KeepsOrder g u ∧
      quickSort (.portable 8 (by decide)) (u.map g) 3 =
        (quickSort .avx2 u 3).map (Array.map g) := by
  intro f v g u
  have hf : KeepsOrder f v := ⟨by decide, by decide⟩
  have hmem (x : Int32) (hx : x ∈ u) : x = 7 ∨ x = Int32.maxValue ∨ x = Int32.minValue := by
    obtain ⟨block, hblock, hx⟩ := Array.mem_flatten.mp hx
    rw [(Array.mem_replicate.mp hblock).2] at hx
    simp only [Array.mem_def, List.mem_cons, List.not_mem_nil] at hx
    tauto
  have hg : KeepsOrder g u := by
    constructor
    · intro x hx
      rcases hmem x hx with rfl | rfl | rfl <;> decide
    · intro x hx y hy
      rcases hmem x hx with rfl | rfl | rfl <;> rcases hmem y hy with rfl | rfl | rfl <;> decide
  have hwidth : Lanes.avx2.width = (Lanes.portable 8 (by decide)).width := rfl
  obtain ⟨-, -, hheap, -⟩ := calls_commute_with_map hf hwidth
  obtain ⟨-, hquick, -⟩ := calls_commute_with_map hg hwidth
  exact ⟨hf, hheap, hg, (hquick 3).1⟩

end VectorizedSort
