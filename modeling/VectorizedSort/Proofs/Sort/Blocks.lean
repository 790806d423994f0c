import VectorizedSort.Proofs.Sort.Whole

/-! # The quicksort leaves short blocks

An array of short runs, seen as a whole: it can be cut into consecutive short blocks such that no
element is above an element of a later block. This is the state in which the quicksort hands its
array to the exchange network. -/

namespace VectorizedSort

open Element

variable {α : Type} [Element α]

/-! ### Blocks -/

/-- Consecutive blocks that make up an array. Every element of a block is at most every element of
the blocks behind it. -/
structure Blocks (v : Array α) (blocks : List (Array α)) : Prop where
  join : (blocks.map Array.toList).flatten = v.toList
  ordered : blocks.Pairwise fun b c => ∀ x ∈ b, ∀ y ∈ c, le x y

theorem Blocks.nil : Blocks (#[] : Array α) [] := ⟨rfl, List.Pairwise.nil⟩

theorem Blocks.mem {v b : Array α} {blocks : List (Array α)} {x : α} (h : Blocks v blocks)
    (hb : b ∈ blocks) (hx : x ∈ b) : x ∈ v := by
  rw [← Array.mem_toList_iff, ← h.join, List.mem_flatten]
  exact ⟨b.toList, List.mem_map_of_mem hb, Array.mem_toList_iff.mpr hx⟩

/-- What stands before a cut is a block before the blocks behind the cut. -/
theorem Blocks.cons {v : Array α} {blocks : List (Array α)} {lo cut : Nat}
    (h : Blocks (slice v cut v.size) blocks) (hcut : IsCut v cut) (hlo : lo ≤ cut)
    (hsize : cut ≤ v.size) : Blocks (slice v lo v.size) (slice v lo cut :: blocks) where
  join := by
    rw [List.map_cons, List.flatten_cons, h.join, ← Array.toList_append,
      slice_append_slice v hlo hsize]
  ordered := by
    refine List.pairwise_cons.mpr ⟨fun c hc x hx y hy => hcut x ?_ y ?_, h.ordered⟩
    · rw [← contents_add_contents v (Nat.zero_le lo) hlo, Multiset.mem_add]
      exact Or.inr (Multiset.mem_coe.mpr (Array.mem_toList_iff.mpr hx))
    · exact Multiset.mem_coe.mpr (Array.mem_toList_iff.mpr (h.mem hc hy))

/-- From any position on, an array of short runs can be cut into short blocks: the first one ends
where the run of that position ends. -/
theorem exists_blocks_slice {n : Nat} {v : Array α} (h : ∀ i < v.size, ShortRun n v i) (lo : Nat) :
    ∃ blocks, Blocks (slice v lo v.size) blocks ∧ ∀ b ∈ blocks, 0 < b.size ∧ b.size ≤ n := by
  by_cases hlo : lo < v.size
  · obtain ⟨start, cut, -, hcut, hstart, hlt, hsize, hshort⟩ := h lo hlo
    obtain ⟨blocks, hblocks, hsizes⟩ := exists_blocks_slice h cut
    refine ⟨_, hblocks.cons hcut (Nat.le_of_lt hlt) hsize, fun b hb => ?_⟩
    rcases List.mem_cons.mp hb with rfl | hb
    · rw [size_slice v hsize]
      omega
    · exact hsizes b hb
  · have hempty : slice v lo v.size = #[] :=
      Array.extract_empty_of_stop_le_start (Nat.not_lt.mp hlo)
    rw [hempty]
    exact ⟨[], .nil, fun b hb => absurd hb List.not_mem_nil⟩
termination_by v.size - lo

/-! ### The quicksort -/

/-- With any number of levels that the work stack has room for, the quicksort of integers or of
ordered floats leaves an array that can be cut into blocks. No block is longer than a short run,
because a stretch in order, which a heapsort or a side that is skipped leaves, falls into blocks of
one element. -/
theorem quickSort_blocks (lanes : Lanes) {v : Array α}
    (hv : (Element.kind α).isInteger ∨ AllOrdered v) {limit : Nat} (hlimit : limit ≤ 129) :
    ∃ w, quickSort lanes v limit = .ok w ∧ w.Perm v ∧
      ∃ blocks, Blocks w blocks ∧ ∀ b ∈ blocks, 0 < b.size ∧ b.size ≤ runThreshold := by
  have hv : AllOrdered v := hv.elim (fun hint => allOrdered_of_isInteger hint v) id
  obtain ⟨w, hok, hperm, hruns⟩ := quickSort_runs lanes v (Nat.lt_succ_of_le hlimit)
  have hblocks := exists_blocks_slice (hruns hv) 0
  rw [slice_full] at hblocks
  exact ⟨w, hok, hperm, hblocks⟩

/-- Ten floats with one level to spend. -/
theorem quickSort_blocks_of_ten_floats :
    let v : Array Binary32 :=
      #[.infinity, ⟨0⟩, .negInfinity, ⟨0x80000000⟩, ⟨1⟩, ⟨0⟩, ⟨2⟩, ⟨3⟩, ⟨0⟩, ⟨1⟩]
    AllOrdered v ∧ ∃ w, quickSort (.portable 3 (by decide)) v 1 = .ok w ∧ w.Perm v ∧
      ∃ blocks, Blocks w blocks ∧ ∀ b ∈ blocks, 0 < b.size ∧ b.size ≤ runThreshold := by
  intro v
  have hv : AllOrdered v := allOrdered_iff_not_isNaN.mpr (by decide)
  exact ⟨hv, quickSort_blocks (.portable 3 (by decide)) (Or.inr hv) (by decide)⟩

end VectorizedSort
