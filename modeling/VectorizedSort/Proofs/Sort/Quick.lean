import VectorizedSort.Proofs.Sort.Heap
import VectorizedSort.Proofs.Sort.Level
import VectorizedSort.Proofs.Sort.Runs

/-! # The quicksort leaves short runs

The loop over the work stack is followed by two invariants. The first holds for all elements: the
array is a rearrangement of the given one, the waiting ranges lie inside it, and the work stack has
room. The second is about ordered elements: every end of a waiting range is a cut, and every slot
outside of the waiting ranges lies in a short run. -/

namespace VectorizedSort

open Element

variable {α : Type} [Element α]

/-! ### Pushing -/

theorem pushAll_eq_ok {stack ps : List Pending} (h : stack.length + ps.length ≤ stackCapacity) :
    pushAll stack ps = .ok (ps.reverse ++ stack) := by
  induction ps generalizing stack with
  | nil => rfl
  | cons p ps ih =>
    rw [List.length_cons] at h
    rw [pushAll, push, if_pos (by omega)]
    simp only
    rw [ih (by rw [List.length_cons]; omega), List.reverse_cons, List.append_assoc]
    rfl

theorem eq_of_pushAll_eq_ok {stack ps stack' : List Pending} (h : pushAll stack ps = .ok stack') :
    stack' = ps.reverse ++ stack := by
  induction ps generalizing stack with
  | nil =>
    cases h
    rfl
  | cons p ps ih =>
    rw [pushAll] at h
    split at h
    · rename_i hp
      rw [ih h, Work.push_eq_ok hp, List.reverse_cons, List.append_assoc]
      rfl
    · cases h

/-- Every range may still spend at most `levels` levels, less one for each range below it. -/
def WithinLevels (levels : Nat) : List Pending → Prop
  | [] => True
  | p :: rest => p.limit + rest.length ≤ levels ∧ WithinLevels levels rest

/-- The parts of a range have one level less, which leaves room for one of them below the other. -/
theorem WithinLevels.parts {levels limit : Nat} {p : Pending} {rest : List Pending}
    (h : WithinLevels levels (p :: rest)) (hlimit : p.limit = limit + 1) (level : Level α) :
    WithinLevels levels ((p.parts limit level).reverse ++ rest) := by
  obtain ⟨hp, hrest⟩ := h
  unfold Pending.parts
  split <;> split
  · exact ⟨by simp; omega, by simp; omega, hrest⟩
  · exact ⟨by simp; omega, hrest⟩
  · exact ⟨by simp; omega, hrest⟩
  · exact hrest

theorem length_parts_le (p : Pending) (limit : Nat) (level : Level α) :
    (p.parts limit level).length ≤ 2 := by
  unfold Pending.parts
  split <;> split <;> simp

theorem mem_parts {p q : Pending} {limit : Nat} {level : Level α} :
    q ∈ p.parts limit level ↔
      (level.sortsRight = true ∧ q = ⟨p.left + level.rightStart, p.right, limit⟩) ∨
        (level.sortsLeft = true ∧ q = ⟨p.left, p.left + level.boundary, limit⟩) := by
  unfold Pending.parts
  rw [List.mem_append, List.mem_ite_nil_right, List.mem_ite_nil_right, List.mem_singleton,
    List.mem_singleton]

/-- Both parts lie inside the range they come from. -/
theorem inside_of_mem_parts {items : Array α} {p q : Pending} {limit : Nat} {level : Level α}
    (hle : p.left ≤ p.right) (hright : p.right ≤ items.size)
    (hlevel : level.Sound (slice items p.left p.right)) (hq : q ∈ p.parts limit level) :
    q.left ≤ q.right ∧ q.right ≤ p.right := by
  have hsize := hlevel.perm.size_eq
  have hboundary := hlevel.boundary_le
  have hstart := hlevel.rightStart_le
  rw [size_slice items hright] at hsize
  rcases mem_parts.mp hq with ⟨-, rfl⟩ | ⟨-, rfl⟩
  · simp only
    omega
  · simp only
    omega

/-- The left part, which is pushed last, ends where the right part starts or before that. -/
theorem pairwise_reverse_parts {p : Pending} {limit : Nat} {level : Level α}
    (hboundary : level.boundary ≤ level.rightStart) :
    (p.parts limit level).reverse.Pairwise fun q r => q.right ≤ r.left := by
  unfold Pending.parts
  split <;> split <;> simp [hboundary]

namespace Work

/-! ### The loop -/

section Step

variable (lanes : Lanes) {items : Array α} {p : Pending} (rest : List Pending)

theorem step_of_short (hshort : (slice items p.left p.right).size ≤ runThreshold) :
    step lanes items p rest = .ok ⟨items, rest⟩ := by
  rw [step]
  simp only
  rw [dif_pos hshort]

variable (hlong : runThreshold < (slice items p.left p.right).size)

include hlong in
theorem step_of_spent (hlimit : p.limit = 0) : step lanes items p rest =
    .ok ⟨splice items p.left (heapSort (slice items p.left p.right)), rest⟩ := by
  rw [step]
  simp only
  rw [dif_neg (Nat.not_le.mpr hlong)]
  split
  · rfl
  · rename_i limit hlimit'
    rw [hlimit] at hlimit'
    cases hlimit'

variable {limit : Nat} (hlimit : p.limit = limit + 1)

include hlimit

/-- A long range with levels to spend is treated by a level. -/
theorem step_of_long :
    let level := Level.ofRange lanes (slice items p.left p.right) (Nat.zero_lt_of_lt hlong)
    step lanes items p rest =
      (pushAll rest (p.parts limit level)).map fun stack =>
        ⟨splice items p.left level.items, stack⟩ := by
  rw [step]
  simp only
  rw [dif_neg (Nat.not_le.mpr hlong)]
  split
  · rename_i hzero
    rw [hlimit] at hzero
    cases hzero
  · rename_i limit' hlimit'
    rw [hlimit] at hlimit'
    cases hlimit'
    split
    · rename_i hpush
      rw [hpush]
      rfl
    · rename_i hpush
      rw [hpush]
      rfl

/-- There is room for its parts if two more ranges may wait. -/
theorem step_of_long_of_room (hroom : rest.length + 2 ≤ stackCapacity) :
    let level := Level.ofRange lanes (slice items p.left p.right) (Nat.zero_lt_of_lt hlong)
    step lanes items p rest =
      .ok ⟨splice items p.left level.items, (p.parts limit level).reverse ++ rest⟩ := by
  have hparts := length_parts_le p limit
    (Level.ofRange lanes (slice items p.left p.right) (Nat.zero_lt_of_lt hlong))
  rw [step_of_long lanes rest hlong hlimit, pushAll_eq_ok (by omega)]
  rfl

/-- Unless the work stack is full, they come to wait above the other ranges. -/
theorem eq_of_step_of_long {next : Work α} (h : step lanes items p rest = .ok next) :
    let level := Level.ofRange lanes (slice items p.left p.right) (Nat.zero_lt_of_lt hlong)
    next = ⟨splice items p.left level.items, (p.parts limit level).reverse ++ rest⟩ := by
  rw [step_of_long lanes rest hlong hlimit] at h
  simp only
  cases hpush : pushAll rest (p.parts limit
      (Level.ofRange lanes (slice items p.left p.right) (Nat.zero_lt_of_lt hlong))) with
  | ok stack =>
    rw [hpush] at h
    cases h
    rw [eq_of_pushAll_eq_ok hpush]
  | error fault =>
    rw [hpush] at h
    cases h

end Step

/-- What treating a range comes to. -/
inductive Treated (items : Array α) (p : Pending) (rest : List Pending) : Work α → Prop where
  | short (h : p.right ≤ p.left + runThreshold) : Treated items p rest ⟨items, rest⟩
  | heap : Treated items p rest
      ⟨splice items p.left (heapSort (slice items p.left p.right)), rest⟩
  | level (limit : Nat) (level : Level α) (hlimit : p.limit = limit + 1)
      (hsound : level.Sound (slice items p.left p.right)) : Treated items p rest
        ⟨splice items p.left level.items, (p.parts limit level).reverse ++ rest⟩

/-- A range inside the array is treated without a fault while the work stack has room. -/
theorem step_treated (lanes : Lanes) {items : Array α} {p : Pending} {rest : List Pending}
    (hright : p.right ≤ items.size) (hroom : p.limit + rest.length < stackCapacity) :
    ∃ next, step lanes items p rest = .ok next ∧ Treated items p rest next := by
  by_cases hlong : runThreshold < (slice items p.left p.right).size
  · cases hlimit : p.limit with
    | zero => exact ⟨_, step_of_spent lanes rest hlong hlimit, .heap⟩
    | succ limit =>
      exact ⟨_, step_of_long_of_room lanes rest hlong hlimit (by omega),
        .level limit _ hlimit (Level.ofRange_sound lanes _ _)⟩
  · have hshort := Nat.not_lt.mp hlong
    rw [size_slice items hright] at hshort
    exact ⟨_, step_of_short lanes rest (Nat.not_lt.mp hlong), .short (by omega)⟩

/-- The loop treats the next range and goes on. -/
theorem run_cons (lanes : Lanes) (items : Array α) (p : Pending) (rest : List Pending) :
    run lanes items (p :: rest) =
      step lanes items p rest >>= fun next => run lanes next.items next.stack := by
  rw [run]
  split
  · rename_i next hnext
    rw [hnext]
    rfl
  · rename_i fault hfault
    rw [hfault]
    rfl

/-- What every step keeps holds when no range is left to treat, and no step fails. -/
theorem run_induction (lanes : Lanes) {P : Array α → List Pending → Prop}
    (hstep : ∀ items p rest, P items (p :: rest) →
      ∃ next, step lanes items p rest = .ok next ∧ P next.items next.stack)
    {items : Array α} {stack : List Pending} (h : P items stack) :
    ∃ w, run lanes items stack = .ok w ∧ P w [] := by
  fun_induction run lanes items stack with
  | case1 items => exact ⟨items, rfl, h⟩
  | case2 items p rest next hnext ih =>
    obtain ⟨next', hok, hP⟩ := hstep items p rest h
    rw [hnext] at hok
    cases hok
    exact ih hP
  | case3 items p rest fault hfault =>
    obtain ⟨next', hok, -⟩ := hstep items p rest h
    rw [hfault] at hok
    cases hok

/-! ### All elements -/

/-- What holds of the loop for all elements. -/
structure Sane (levels : Nat) (v items : Array α) (stack : List Pending) : Prop where
  perm : items.Perm v
  inside : ∀ p ∈ stack, p.left ≤ p.right ∧ p.right ≤ items.size
  levels : WithinLevels levels stack

omit [Element α] in
theorem Sane.start {v : Array α} {limit : Nat} : Sane limit v v [⟨0, v.size, limit⟩] where
  perm := .rfl
  inside p hp := by
    rw [List.mem_singleton.mp hp]
    exact ⟨Nat.zero_le _, Nat.le_refl _⟩
  levels := ⟨Nat.le_refl _, trivial⟩

theorem Sane.treated {levels : Nat} {v items : Array α} {p : Pending} {rest : List Pending}
    {next : Work α} (h : Sane levels v items (p :: rest)) (ht : Treated items p rest next) :
    Sane levels v next.items next.stack := by
  obtain ⟨hperm, hinside, hlevels⟩ := h
  obtain ⟨hle, hright⟩ := hinside p List.mem_cons_self
  have hrest := fun q hq => hinside q (List.mem_cons_of_mem p hq)
  cases ht with
  | short hshort => exact ⟨hperm, hrest, hlevels.2⟩
  | heap =>
    refine ⟨(splice_perm hle hright (heapSort_perm _)).trans hperm, ?_, hlevels.2⟩
    rw [size_splice]
    exact hrest
  | level limit level hlimit hsound =>
    refine ⟨(splice_perm hle hright hsound.perm).trans hperm, ?_, hlevels.parts hlimit level⟩
    rw [size_splice]
    intro q hq
    rw [List.mem_append, List.mem_reverse] at hq
    rcases hq with hq | hq
    · have hinside := inside_of_mem_parts hle hright hsound hq
      exact ⟨hinside.1, hinside.2.trans hright⟩
    · exact hrest q hq

/-- As long as no more levels may be spent than the work stack has room for, no step fails. -/
theorem Sane.step (lanes : Lanes) {levels : Nat} (hlevels : levels < stackCapacity)
    {v items : Array α} {p : Pending} {rest : List Pending}
    (h : Sane levels v items (p :: rest)) :
    ∃ next, step lanes items p rest = .ok next ∧ Treated items p rest next ∧
      Sane levels v next.items next.stack := by
  have hroom : p.limit + rest.length < stackCapacity := Nat.lt_of_le_of_lt h.levels.1 hlevels
  obtain ⟨next, hok, ht⟩ := step_treated lanes (h.inside p List.mem_cons_self).2 hroom
  exact ⟨next, hok, ht, h.treated ht⟩

/-- The states that the loop on an array passes through. -/
inductive Reached (lanes : Lanes) (v : Array α) (limit : Nat) : Work α → Prop where
  | start : Reached lanes v limit ⟨v, [⟨0, v.size, limit⟩]⟩
  | step {items : Array α} {p : Pending} {rest : List Pending} {next : Work α}
      (h : Reached lanes v limit ⟨items, p :: rest⟩)
      (hnext : step lanes items p rest = .ok next) : Reached lanes v limit next

theorem Reached.sane {lanes : Lanes} {v : Array α} {limit : Nat} {work : Work α}
    (hlimit : limit < stackCapacity) (h : Reached lanes v limit work) :
    Sane limit v work.items work.stack := by
  induction h with
  | start => exact .start
  | step _ hnext ih =>
    obtain ⟨next, hok, -, hsane⟩ := ih.step lanes hlimit
    rw [hnext] at hok
    cases hok
    exact hsane

/-! ### Ordered elements -/

/-- What holds of the loop for ordered elements. The next range stands leftmost. -/
structure Tidy (items : Array α) (stack : List Pending) : Prop where
  sorted : stack.Pairwise fun p q => p.right ≤ q.left
  cuts : ∀ p ∈ stack, IsCut items p.left ∧ IsCut items p.right
  covered : ∀ i < items.size,
    (∃ p ∈ stack, p.left ≤ i ∧ i < p.right) ∨ ShortRun runThreshold items i

/-- Treating a range needs to be looked at in that range alone: if its slots end up in short runs or
in waiting parts of it between cuts, the whole array is tidy again. -/
theorem Tidy.splice {levels : Nat} {v items part : Array α} {p : Pending}
    {rest parts : List Pending} (h : Tidy items (p :: rest))
    (hsane : Sane levels v items (p :: rest)) (hperm : part.Perm (slice items p.left p.right))
    (hsorted : parts.Pairwise fun q r => q.right ≤ r.left)
    (hparts : ∀ q ∈ parts, q.right ≤ p.right ∧
      IsCut (VectorizedSort.splice items p.left part) q.left ∧
      IsCut (VectorizedSort.splice items p.left part) q.right)
    (hcovered : ∀ i, p.left ≤ i → i < p.right → (∃ q ∈ parts, q.left ≤ i ∧ i < q.right) ∨
      ShortRun runThreshold (VectorizedSort.splice items p.left part) i) :
    Tidy (VectorizedSort.splice items p.left part) (parts ++ rest) := by
  obtain ⟨hle, hright⟩ := hsane.inside p List.mem_cons_self
  obtain ⟨hleft_cut, hright_cut⟩ := h.cuts p List.mem_cons_self
  obtain ⟨hbehind, hrest_sorted⟩ := List.pairwise_cons.mp h.sorted
  constructor
  case sorted =>
    rw [List.pairwise_append]
    exact ⟨hsorted, hrest_sorted, fun q hq r hr => (hparts q hq).1.trans (hbehind r hr)⟩
  case cuts =>
    intro q hq
    rcases List.mem_append.mp hq with hq | hq
    · exact (hparts q hq).2
    · have hq' := List.mem_cons_of_mem p hq
      obtain ⟨hq_left, hq_right⟩ := h.cuts q hq'
      have hq_le := (hsane.inside q hq').1
      have hq_behind := hbehind q hq
      exact ⟨hq_left.splice hle hright hperm (Or.inr hq_behind),
        hq_right.splice hle hright hperm (Or.inr (hq_behind.trans hq_le))⟩
  case covered =>
    intro i hi
    rw [size_splice] at hi
    -- a slot outside of the range keeps its waiting range or its short run
    by_cases hin : p.left ≤ i ∧ i < p.right
    · rcases hcovered i hin.1 hin.2 with ⟨q, hq, hq_in⟩ | hrun
      · exact Or.inl ⟨q, List.mem_append_left rest hq, hq_in⟩
      · exact Or.inr hrun
    · rcases h.covered i hi with ⟨q, hq, hq_in⟩ | hrun
      · rcases List.mem_cons.mp hq with rfl | hq
        · exact absurd hq_in hin
        · exact Or.inl ⟨q, List.mem_append_right parts hq, hq_in⟩
      · exact Or.inr (hrun.splice hle hright hperm hleft_cut hright_cut (by omega))

theorem Tidy.start (v : Array α) (limit : Nat) : Tidy v [⟨0, v.size, limit⟩] where
  sorted := List.pairwise_singleton _ _
  cuts p hp := by
    rw [List.mem_singleton.mp hp]
    exact ⟨isCut_zero v, isCut_size v⟩
  covered i hi := Or.inl ⟨_, List.mem_singleton_self _, Nat.zero_le i, hi⟩

section Treated

variable {levels : Nat} {v items : Array α} {p : Pending} {rest : List Pending}
  (h : Tidy items (p :: rest)) (hsane : Sane levels v items (p :: rest))

include h hsane

/-- A short range is a short run. -/
theorem Tidy.short (hshort : p.right ≤ p.left + runThreshold) : Tidy items rest := by
  obtain ⟨hle, hright⟩ := hsane.inside p List.mem_cons_self
  obtain ⟨hleft_cut, hright_cut⟩ := h.cuts p List.mem_cons_self
  refine ⟨(List.pairwise_cons.mp h.sorted).2, fun q hq => h.cuts q (List.mem_cons_of_mem p hq), ?_⟩
  intro i hi
  rcases h.covered i hi with ⟨q, hq, hq_in⟩ | hrun
  · rcases List.mem_cons.mp hq with rfl | hq
    · exact Or.inr ⟨_, _, hleft_cut, hright_cut, hq_in.1, hq_in.2, hright, hshort⟩
    · exact Or.inl ⟨q, hq, hq_in⟩
  · exact Or.inr hrun

variable (hrange : AllOrdered (slice items p.left p.right))

include hrange

/-- After a heapsort every position of the range is a cut. -/
theorem Tidy.heap : Tidy
    (VectorizedSort.splice items p.left (heapSort (slice items p.left p.right))) rest := by
  obtain ⟨hle, hright⟩ := hsane.inside p List.mem_cons_self
  obtain ⟨hleft_cut, hright_cut⟩ := h.cuts p List.mem_cons_self
  have hsize : (slice items p.left p.right).size = p.right - p.left := size_slice items hright
  have hperm := heapSort_perm (slice items p.left p.right)
  have hitems := hperm.size_eq
  have hcut (cut : Nat) (hcut_le : cut ≤ p.right - p.left) : IsCut
      (VectorizedSort.splice items p.left (heapSort (slice items p.left p.right)))
      (p.left + cut) := by
    refine isCut_splice hle hright hperm hleft_cut hright_cut (by omega) ?_
    intro x hx y hy
    obtain ⟨i, -, hi_cut, hi⟩ := mem_contents.mp hx
    obtain ⟨j, hcut_j, -, hj⟩ := mem_contents.mp hy
    obtain ⟨hi_size, rfl⟩ := Array.getElem?_eq_some_iff.mp hi
    obtain ⟨hj_size, rfl⟩ := Array.getElem?_eq_some_iff.mp hj
    exact heapSort_le hrange hi_size hj_size (by omega)
  show Tidy _ ([] ++ rest)
  refine h.splice hsane hperm List.Pairwise.nil (fun q hq => absurd hq List.not_mem_nil) ?_
  intro i hi_left hi_right
  have hi := hcut (i - p.left) (by omega)
  have hnext := hcut (i + 1 - p.left) (by omega)
  rw [Nat.add_sub_cancel' (by omega)] at hi hnext
  exact Or.inr (.single (by decide) (by rw [size_splice]; omega) hi hnext)

/-- A level leaves its parts waiting. Left of them nothing stands, and between and behind them every
position is a cut. -/
theorem Tidy.level {level : Level α} (hlevel : level.Sound (slice items p.left p.right))
    (limit : Nat) :
    Tidy (VectorizedSort.splice items p.left level.items)
      ((p.parts limit level).reverse ++ rest) := by
  obtain ⟨hle, hright⟩ := hsane.inside p List.mem_cons_self
  obtain ⟨hleft_cut, hright_cut⟩ := h.cuts p List.mem_cons_self
  have hsize : (slice items p.left p.right).size = p.right - p.left := size_slice items hright
  have hperm := hlevel.perm
  have hitems := hperm.size_eq
  have hboundary := hlevel.boundary_le
  have hstart := hlevel.rightStart_le
  have hcut (cut : Nat) (hlow : level.boundary ≤ cut) (hcut_le : cut ≤ p.right - p.left)
      (hskip : cut ≤ level.rightStart ∨ level.sortsRight = false) :
      IsCut (VectorizedSort.splice items p.left level.items) (p.left + cut) :=
    isCut_splice hle hright hperm hleft_cut hright_cut (by omega)
      (hlevel.le_of_cut hrange hlow (by omega) hskip)
  have hleft_cut' := hleft_cut.splice hle hright hperm (Or.inl (Nat.le_refl p.left))
  have hright_cut' := hright_cut.splice hle hright hperm (Or.inr (Nat.le_refl p.right))
  refine h.splice hsane hperm (pairwise_reverse_parts hboundary) ?_ ?_
  · intro q hq
    rw [List.mem_reverse] at hq
    refine ⟨(inside_of_mem_parts hle hright hlevel hq).2, ?_⟩
    rcases mem_parts.mp hq with ⟨-, rfl⟩ | ⟨-, rfl⟩
    · exact ⟨hcut _ hboundary (by omega) (Or.inl (Nat.le_refl _)), hright_cut'⟩
    · exact ⟨hleft_cut', hcut _ (Nat.le_refl _) (by omega) (Or.inl hboundary)⟩
  · intro i hi_left hi_right
    by_cases hbelow : i < p.left + level.boundary
    · -- a left side that is skipped would be empty
      have hsorts : level.sortsLeft = true := by
        by_contra hskip
        have := hlevel.boundary_eq_zero hrange (Bool.eq_false_of_not_eq_true hskip)
        omega
      refine Or.inl ⟨⟨p.left, p.left + level.boundary, limit⟩, ?_, hi_left, hbelow⟩
      rw [List.mem_reverse, mem_parts]
      exact Or.inr ⟨hsorts, rfl⟩
    · by_cases habove : p.left + level.rightStart ≤ i ∧ level.sortsRight = true
      · refine Or.inl ⟨⟨p.left + level.rightStart, p.right, limit⟩, ?_, habove.1, hi_right⟩
        rw [List.mem_reverse, mem_parts]
        exact Or.inl ⟨habove.2, rfl⟩
      · -- between the parts every position is a cut
        have hskip : i + 1 - p.left ≤ level.rightStart ∨ level.sortsRight = false := by
          by_cases hsorts : level.sortsRight = true
          · have hi_start : ¬ p.left + level.rightStart ≤ i := fun hle => habove ⟨hle, hsorts⟩
            exact Or.inl (by omega)
          · exact Or.inr (Bool.eq_false_of_not_eq_true hsorts)
        have hi := hcut (i - p.left) (by omega) (by omega)
          (hskip.imp_left fun hle => by omega)
        have hnext := hcut (i + 1 - p.left) (by omega) (by omega) hskip
        rw [Nat.add_sub_cancel' (by omega)] at hi hnext
        exact Or.inr (.single (by decide) (by rw [size_splice]; omega) hi hnext)

omit hrange in
theorem Tidy.treated {next : Work α} (hv : AllOrdered v) (ht : Treated items p rest next) :
    Tidy next.items next.stack := by
  have hordered := hv.of_perm hsane.perm
  have hrange : AllOrdered (slice items p.left p.right) :=
    fun x hx => hordered x (mem_of_mem_slice hx)
  cases ht with
  | short hshort => exact h.short hsane hshort
  | heap => exact h.heap hsane hrange
  | level limit level _ hlevel => exact h.level hsane hrange hlevel limit

end Treated

end Work

/-- The quicksort does not fail and rearranges, whatever the elements are, and of ordered elements
it leaves an array of short runs. -/
theorem quickSort_runs (lanes : Lanes) (v : Array α) {limit : Nat}
    (hlimit : limit < stackCapacity) :
    ∃ w, quickSort lanes v limit = .ok w ∧ w.Perm v ∧
      (AllOrdered v → ∀ i < w.size, ShortRun runThreshold w i) := by
  obtain ⟨w, hok, hsane, htidy⟩ := Work.run_induction lanes
    (P := fun items stack => Work.Sane limit v items stack ∧ (AllOrdered v → Work.Tidy items stack))
    (fun items p rest ⟨hsane, htidy⟩ => by
      obtain ⟨next, hok, ht, hnext⟩ := hsane.step lanes hlimit
      exact ⟨next, hok, hnext, fun hv => (htidy hv).treated hsane hv ht⟩)
    ⟨Work.Sane.start, fun _ => Work.Tidy.start v limit⟩
  refine ⟨w, hok, hsane.perm, fun hv i hi => ?_⟩
  rcases (htidy hv).covered i hi with ⟨p, hp, -⟩ | hrun
  · exact absurd hp List.not_mem_nil
  · exact hrun

end VectorizedSort
