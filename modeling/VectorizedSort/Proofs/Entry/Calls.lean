import VectorizedSort.Element.Binary32
import VectorizedSort.Proofs.Partition.Checked
import VectorizedSort.Proofs.Partition.Pivots
import VectorizedSort.Proofs.Sort.Countdown
import VectorizedSort.Proofs.Sort.Finisher
import VectorizedSort.Proofs.Sort.Whole

/-! # Calls lose nothing

Every operation on an array is a call, from the whole sort down to a single partition pass. Within
its documented conditions a call never fails and rearranges the array, whatever the elements are;
a partition with an index outside of the array is refused before anything is touched. So no sequence
of calls loses or duplicates an element. -/

namespace VectorizedSort

variable {α : Type} [Element α]

/-! ### Calls -/

/-- The operations on an array. -/
inductive Call (α : Type) where
  | sort (host : Host)
  | sortOn (cpu : Cpu) (backend : Backend)
  | sortWith (cpu : Cpu) (lanes : Lanes)
  | partition (host : Host) (index1 index2 : Nat)
  | partitionOn (cpu : Cpu) (backend : Backend) (index1 index2 : Nat)
  | partitionWith (cpu : Cpu) (lanes : Lanes) (index1 index2 : Nat)
  | heapSort
  | insertionSort (offset : Nat)
  | exchangeSort (lanes : Lanes)
  | quickSort (lanes : Lanes) (limit : Nat)
  | partitionRange (lanes : Lanes) (test : Test) (pivot : α) (seen : Extremes α)
  | partitionPass (lanes : Lanes) (test : Test) (pivot : α)

namespace Call

/-- The array that a call leaves, or why it was given up. -/
def run (v : Array α) : Call α → Except Fault (Array α)
  | sort host => (VectorizedSort.sort host v).map (·.value)
  | sortOn cpu backend => (VectorizedSort.sortOn cpu backend v).map (·.value)
  | sortWith cpu lanes => VectorizedSort.sortWith cpu lanes v
  | partition host index1 index2 =>
    ((VectorizedSort.partition host v index1 index2).map (·.value)).map (·.items)
  | partitionOn cpu backend index1 index2 =>
    ((VectorizedSort.partitionOn cpu backend v index1 index2).map (·.value)).map (·.items)
  | partitionWith cpu lanes index1 index2 =>
    (VectorizedSort.partitionWith cpu lanes v index1 index2).map (·.items)
  | heapSort => .ok (VectorizedSort.heapSort v)
  | insertionSort offset => VectorizedSort.insertionSort v offset
  | exchangeSort lanes => .ok (VectorizedSort.exchangeSort lanes v)
  | quickSort lanes limit => VectorizedSort.quickSort lanes v limit
  | partitionRange lanes test pivot seen =>
    .ok (VectorizedSort.partitionRange lanes test v pivot seen).items
  | partitionPass lanes test pivot => .ok (VectorizedSort.partitionPass lanes test v pivot).items

/-- The conditions of a call on an array of the given length: a length that is a machine word, a
lane set that the processor can execute, indices inside the array, a valid offset, and no more
levels than the work stack has room for. -/
def Admissible (length : Nat) : Call α → Prop
  | sort _ | sortOn _ _ => length < 2 ^ 64
  | sortWith cpu lanes => length < 2 ^ 64 ∧ cpu.supports lanes.backend
  | partition _ index1 index2 | partitionOn _ _ index1 index2 => index1 < length ∧ index2 < length
  | partitionWith cpu lanes index1 index2 =>
    cpu.supports lanes.backend ∧ index1 < length ∧ index2 < length
  | insertionSort offset => offset ≠ 0 ∧ offset ≤ length
  | quickSort _ limit => limit ≤ 129
  | heapSort | exchangeSort _ | partitionRange _ _ _ _ | partitionPass _ _ _ => True

/-- A partition that is refused because an index lies outside of the array. -/
def Refused (length : Nat) : Call α → Prop
  | partition _ index1 index2 => length ≤ index1 ∨ length ≤ index2
  | partitionWith cpu lanes index1 index2 =>
    cpu.supports lanes.backend ∧ (length ≤ index1 ∨ length ≤ index2)
  | _ => False

/-- The array after a call. A refused call leaves it as it is. -/
def after (v : Array α) (call : Call α) : Array α :=
  match call.run v with
  | .ok w => w
  | .error _ => v

end Call

/-! ### One call -/

theorem partitionBands_perm (lanes : Lanes) (v : Array α) {i j : Nat} (hi : i < v.size)
    (hj : j < v.size) : (partitionBands lanes v i j hi hj).items.Perm v := by
  rw [partitionBands]
  split
  · exact singlePivot_perm lanes v i hi
  · exact dualPivot_perm lanes hi hj ‹_›

theorem partitionBands_bounds (lanes : Lanes) (v : Array α) {i j : Nat} (hi : i < v.size)
    (hj : j < v.size) :
    (partitionBands lanes v i j hi hj).lower ≤ (partitionBands lanes v i j hi hj).upper ∧
      (partitionBands lanes v i j hi hj).upper ≤ v.size := by
  rw [partitionBands]
  split
  · exact singlePivot_bounds lanes v i hi
  · exact dualPivot_bounds lanes hi hj ‹_›

/-- A call within its conditions answers with a rearrangement. -/
theorem Call.run_ok {v : Array α} {call : Call α} (h : call.Admissible v.size) :
    ∃ w, call.run v = .ok w ∧ w.Perm v := by
  cases call with
  | sort host =>
    obtain ⟨sorted, hok, hperm, -⟩ := sort_ok host h
    rw [run, hok]
    exact ⟨_, rfl, hperm⟩
  | sortOn cpu backend =>
    obtain ⟨sorted, hok, hperm, -⟩ := sortOn_ok cpu backend h
    rw [run, hok]
    exact ⟨_, rfl, hperm⟩
  | sortWith cpu lanes =>
    obtain ⟨w, hok, hperm, -⟩ := sortWith_ok h.2 h.1
    exact ⟨w, hok, hperm⟩
  | partition host i j =>
    rw [run, partition_of_lt host h.1 h.2]
    exact ⟨_, rfl, partitionBands_perm _ v h.1 h.2⟩
  | partitionOn cpu backend i j =>
    rw [run, partitionOn_of_lt cpu backend h.1 h.2]
    exact ⟨_, rfl, partitionBands_perm _ v h.1 h.2⟩
  | partitionWith cpu lanes i j =>
    obtain ⟨hcpu, hi, hj⟩ := h
    rw [run, partitionWith_of_lt hcpu hi hj]
    exact ⟨_, rfl, partitionBands_perm lanes v hi hj⟩
  | heapSort => exact ⟨_, rfl, heapSort_perm v⟩
  | insertionSort offset => exact insertionSort_perm h.1 h.2
  | exchangeSort lanes => exact ⟨_, rfl, exchangeSort_perm lanes v⟩
  | quickSort lanes limit =>
    obtain ⟨w, hok, hperm, -⟩ := quickSort_runs lanes v (Nat.lt_succ_of_le h)
    exact ⟨w, hok, hperm⟩
  | partitionRange lanes test pivot seen =>
    exact ⟨_, rfl, (partitionRange_sound lanes test v pivot seen).perm⟩
  | partitionPass lanes test pivot =>
    exact ⟨_, rfl, (partitionPass_sound lanes test v pivot).perm⟩

omit [Element α] in
/-- An answer that is given within the bounds, and only refused outside of them. -/
theorem eq_error_iff_of_bounds {β : Type} {answer : Except Fault β} {i j size : Nat}
    {cause fault : Fault} (hok : i < size → j < size → ∃ b, answer = .ok b)
    (herror : ¬ (i < size ∧ j < size) → answer = .error cause) :
    answer = .error fault ↔ (size ≤ i ∨ size ≤ j) ∧ fault = cause := by
  by_cases h : i < size ∧ j < size
  · obtain ⟨b, hanswer⟩ := hok h.1 h.2
    rw [hanswer]
    constructor
    · intro hrefused
      cases hrefused
    · rintro ⟨hout, -⟩
      omega
  · rw [herror h]
    constructor
    · intro hrefused
      cases hrefused
      exact ⟨by omega, rfl⟩
    · rintro ⟨-, rfl⟩
      rfl

/-- A partition fails exactly if an index lies outside of the array. -/
theorem partition_eq_error_iff (host : Host) (v : Array α) (i j : Nat) (fault : Fault) :
    partition host v i j = .error fault ↔
      (v.size ≤ i ∨ v.size ≤ j) ∧ fault = .pivotsOutOfBounds i j v.size := by
  refine eq_error_iff_of_bounds (fun hi hj => ?_) fun h => ?_
  · rw [partition, if_pos ⟨hi, hj⟩, partitionOn, partitionBandsAt_of_lt _ hi hj]
    exact ⟨_, rfl⟩
  · rw [partition, if_neg h]

/-- So does one with given register operations that the processor can execute. -/
theorem partitionWith_eq_error_iff {cpu : Cpu} {lanes : Lanes} (hcpu : cpu.supports lanes.backend)
    (v : Array α) (i j : Nat) (fault : Fault) :
    partitionWith cpu lanes v i j = .error fault ↔
      (v.size ≤ i ∨ v.size ≤ j) ∧ fault = .pivotsOutOfBounds i j v.size := by
  refine eq_error_iff_of_bounds (fun hi hj => ?_) fun h => ?_
  · exact ⟨_, partitionWith_of_lt hcpu hi hj⟩
  · rw [partitionWith, if_pos hcpu, dif_neg h]

/-- A refused call leaves the array as it is. -/
theorem Call.after_of_refused {v : Array α} {call : Call α} (h : call.Refused v.size) :
    call.after v = v := by
  cases call with
  | partition host i j =>
    have herror := (partition_eq_error_iff host v i j _).mpr ⟨h, rfl⟩
    rw [after, run, herror]
    rfl
  | partitionWith cpu lanes i j =>
    have herror := (partitionWith_eq_error_iff h.1 v i j _).mpr ⟨h.2, rfl⟩
    rw [after, run, herror]
    rfl
  | _ => exact absurd h id

/-- Within its conditions or refused, a call rearranges the array. -/
theorem Call.after_perm {v : Array α} {call : Call α}
    (h : call.Admissible v.size ∨ call.Refused v.size) : (call.after v).Perm v := by
  rcases h with hadmissible | hrefused
  · obtain ⟨w, hok, hperm⟩ := Call.run_ok hadmissible
    rw [after, hok]
    exact hperm
  · rw [Call.after_of_refused hrefused]

/-! ### Accesses -/

/-- What the operations rely on without reporting a fault of their own, however far they have come:
no chunk of the network has more pairs than a register has lanes, the cursors of a partition stay in
order and its loop reads everything, a level cuts its range inside, and so do waiting ranges. Where
an index, a range or a difference could go wrong in the bands, the network or the heap, the same
steps in an array that refuses go through. -/
structure AccessesInside (v : Array α) : Prop where
  exchanges : ∀ (lanes : Lanes) (pos remaining : Nat),
    lanes.exchangeWithin v pos (min remaining (2 * lanes.width) / 2) =
      .ok (lanes.exchangePairs v pos (min remaining (2 * lanes.width) / 2))
  network : ∀ lanes : Lanes, exchangeSort? lanes v = some (exchangeSort lanes v)
  heap : countdown? (v.size.log2 + 1) v = some (heapSort v)
  cursors : ∀ (lanes : Lanes) (test : Test) (pivot : α) (seen : Extremes α) (n : Nat),
    n + 2 ≤ v.size / lanes.width →
      let s := sweepAfter lanes test v pivot seen n
      s.InRange v.size ∧
        (n + 2 = v.size / lanes.width → s.right = s.left ∧ s.unplaced = lanes.width)
  bands : ∀ (lanes : Lanes) (i j : Nat) (hi : i < v.size) (hj : j < v.size),
    partitionBands? lanes v i j = some (partitionBands lanes v i j hi hj) ∧
      (partitionBands lanes v i j hi hj).lower ≤ (partitionBands lanes v i j hi hj).upper ∧
      (partitionBands lanes v i j hi hj).upper ≤ v.size
  level : ∀ (lanes : Lanes) (h : 0 < v.size),
    (Level.ofRange lanes v h).boundary ≤ (Level.ofRange lanes v h).rightStart ∧
      (Level.ofRange lanes v h).rightStart ≤ v.size
  waiting : ∀ (lanes : Lanes) (limit : Nat), limit ≤ 129 →
    ∀ work, Work.Reached lanes v limit work →
      ∀ p ∈ work.stack, p.left ≤ p.right ∧ p.right ≤ work.items.size

theorem accessesInside (v : Array α) : AccessesInside v where
  exchanges lanes pos remaining := exchangeWithin_chunk lanes v pos remaining
  network lanes := exchangeSort?_eq_some lanes v
  heap := countdown?_eq_some v (Nat.lt_succ_self v.size.log2)
  cursors lanes test pivot seen _ hn := sweepAfter_inRange lanes test v pivot seen hn
  bands lanes _ _ hi hj := ⟨partitionBands?_eq_some lanes hi hj, partitionBands_bounds lanes v hi hj⟩
  level lanes h := by
    have hsound := Level.ofRange_sound lanes v h
    exact ⟨hsound.boundary_le, hsound.perm.size_eq ▸ hsound.rightStart_le⟩
  waiting _ _ hlimit _ hreached := (hreached.sane (Nat.lt_succ_of_le hlimit)).inside

/-! ### Sequences of calls -/

/-- The array after a sequence of calls, one after another. -/
def afterAll (v : Array α) (calls : List (Call α)) : Array α :=
  calls.foldl (fun v call => call.after v) v

theorem afterAll_perm {v : Array α} {calls : List (Call α)}
    (h : ∀ call ∈ calls, call.Admissible v.size ∨ call.Refused v.size) :
    (afterAll v calls).Perm v := by
  induction calls generalizing v with
  | nil => exact .rfl
  | cons call calls ih =>
    have hperm := Call.after_perm (h call List.mem_cons_self)
    refine (ih fun call' hcall => ?_).trans hperm
    rw [hperm.size_eq]
    exact h call' (List.mem_cons_of_mem call hcall)

/-- No call within its conditions fails, leaves the array or loses an element, partitions fail
exactly for indices outside of the array and then change nothing, and no sequence of calls changes
which elements the array holds. Elements and pivots may be unordered. Since ranges and slices are
arrays of their own, accesses are inside of every array. -/
theorem calls_rearrange (v : Array α) :
    (∀ call : Call α, call.Admissible v.size → ∃ w, call.run v = .ok w ∧ w.Perm v) ∧
      (∀ w : Array α, AccessesInside w) ∧
      (∀ (host : Host) (i j : Nat) (fault : Fault), partition host v i j = .error fault ↔
        (v.size ≤ i ∨ v.size ≤ j) ∧ fault = .pivotsOutOfBounds i j v.size) ∧
      (∀ (cpu : Cpu) (lanes : Lanes) (i j : Nat) (fault : Fault), cpu.supports lanes.backend →
        (partitionWith cpu lanes v i j = .error fault ↔
          (v.size ≤ i ∨ v.size ≤ j) ∧ fault = .pivotsOutOfBounds i j v.size)) ∧
      (∀ call : Call α, call.Refused v.size → call.after v = v) ∧
      ∀ calls : List (Call α),
        (∀ call ∈ calls, call.Admissible v.size ∨ call.Refused v.size) →
          (afterAll v calls).Perm v :=
  ⟨fun _ h => Call.run_ok h, accessesInside, fun host => partition_eq_error_iff host v,
    fun _ _ i j fault hcpu => partitionWith_eq_error_iff hcpu v i j fault,
    fun _ h => Call.after_of_refused h, fun _ h => afterAll_perm h⟩

/-- Two NaNs, one of them a pivot, survive a sort, a partition, a refused partition and a pass. -/
theorem calls_rearrange_of_nan :
    let v : Array Binary32 := #[⟨0x40000000⟩, .quietNaN, ⟨0x80000000⟩, ⟨0xff800001⟩]
    let calls : List (Call Binary32) := [.sortWith ⟨false⟩ (.portable 3 (by decide)),
      .partition ⟨⟨true⟩, .avx2⟩ 1 0, .partition ⟨⟨true⟩, .avx2⟩ 0 4,
      .partitionPass .avx2 .above .quietNaN]
    (∀ call ∈ calls, call.Admissible v.size ∨ call.Refused v.size) ∧ (afterAll v calls).Perm v := by
  intro v calls
  have hcalls : ∀ call ∈ calls, call.Admissible v.size ∨ call.Refused v.size := by
    simp [calls, v, Call.Admissible, Call.Refused, Cpu.supports, Lanes.backend]
  obtain ⟨-, -, -, -, -, hall⟩ := calls_rearrange v
  exact ⟨hcalls, hall calls hcalls⟩

end VectorizedSort
