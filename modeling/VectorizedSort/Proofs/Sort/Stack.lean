import VectorizedSort.Proofs.Sort.Whole

/-! # The work stack

A range that waits need not be shorter than the one it comes from: around an unordered pivot every
element goes to the left, and the same range waits again, above an empty one. So it is not the
lengths that end the loop and bound the work stack, but the levels the ranges may still spend. The
loop is followed iteration by iteration here. -/

namespace VectorizedSort

variable {α : Type} [Element α]

/-! ### Levels -/

/-- Counted from the bottom, each range has at least as many levels less as ranges lie below it. -/
theorem WithinLevels.limit_add_le {levels : Nat} {stack : List Pending}
    (h : WithinLevels levels stack) {i : Nat} {p : Pending} (hp : stack.reverse[i]? = some p) :
    p.limit + i ≤ levels := by
  induction stack with
  | nil => cases hp
  | cons q rest ih =>
    rw [List.reverse_cons, List.getElem?_append, List.length_reverse] at hp
    split at hp
    · exact ih h.2 hp
    · -- the range on top is the last one
      obtain ⟨hi, rfl⟩ := List.getElem?_eq_some_iff.mp hp
      rw [List.length_singleton] at hi
      simp only [List.getElem_singleton]
      have hq := h.1
      omega

theorem WithinLevels.length_le {levels : Nat} {stack : List Pending}
    (h : WithinLevels levels stack) : stack.length ≤ levels + 1 := by
  cases stack with
  | nil => exact Nat.zero_le _
  | cons p rest => exact Nat.succ_le_succ (Nat.le_of_add_left_le h.1)

theorem Pending.descendants_add_one (limit : Nat) :
    descendants limit + 1 = 2 ^ (limit + 1) := by
  induction limit with
  | zero => rfl
  | succ limit ih =>
    rw [descendants, Nat.pow_succ, ← ih]
    omega

theorem Pending.weight_pos (p : Pending) : 0 < p.weight := by
  have hpow : 2 ≤ 2 ^ (p.limit + 1) := Nat.le_self_pow (Nat.succ_ne_zero p.limit) 2
  rw [← descendants_add_one] at hpow
  exact Nat.le_of_succ_le_succ hpow

namespace Work

theorem eq_nil_of_weight_eq_zero {stack : List Pending} (h : weight stack = 0) : stack = [] := by
  cases stack with
  | nil => rfl
  | cons p rest => exact absurd (Nat.add_eq_zero_iff.mp h).1 (Nat.ne_of_gt p.weight_pos)

/-! ### Iterations -/

/-- The state of the loop after a number of iterations, each of which takes the next range from the
work stack. A loop that has ended stays as it is. -/
def advance (lanes : Lanes) : Nat → Work α → Except Fault (Work α)
  | 0, work => .ok work
  | _ + 1, ⟨items, []⟩ => .ok ⟨items, []⟩
  | n + 1, ⟨items, p :: rest⟩ =>
    match step lanes items p rest with
    | .ok next => advance lanes n next
    | .error fault => .error fault

/-- What every step keeps holds after any number of iterations, and none of them fails. -/
theorem advance_induction (lanes : Lanes) {P : Array α → List Pending → Prop}
    (hstep : ∀ items p rest, P items (p :: rest) →
      ∃ next, step lanes items p rest = .ok next ∧ P next.items next.stack)
    (n : Nat) {items : Array α} {stack : List Pending} (h : P items stack) :
    ∃ work, advance lanes n ⟨items, stack⟩ = .ok work ∧ P work.items work.stack := by
  induction n generalizing items stack with
  | zero => exact ⟨_, rfl, h⟩
  | succ n ih =>
    cases stack with
    | nil => exact ⟨_, rfl, h⟩
    | cons p rest =>
      obtain ⟨next, hok, hnext⟩ := hstep items p rest h
      rw [advance, hok]
      exact ih hnext

/-- Every iteration makes the work stack lighter, so after as many iterations as it weighs the loop
has ended with its result. -/
theorem run_of_advance {lanes : Lanes} {n : Nat} {start work : Work α}
    (h : advance lanes n start = .ok work) (hn : weight start.stack ≤ n) :
    work.stack = [] ∧ run lanes start.items start.stack = .ok work.items := by
  fun_induction advance lanes n start with
  | case1 start =>
    cases h
    have hnil := eq_nil_of_weight_eq_zero (Nat.le_zero.mp hn)
    rw [hnil, run]
    exact ⟨rfl, rfl⟩
  | case2 n items =>
    cases h
    rw [run]
    exact ⟨rfl, rfl⟩
  | case3 n items p rest next hnext ih =>
    have hlighter := weight_step_lt hnext
    rw [run_cons, hnext]
    exact ih h (Nat.le_of_lt_succ (Nat.lt_of_lt_of_le hlighter hn))
  | case4 n items p rest fault hfault => cases h

/-! ### The waiting ranges -/

/-- The waiting ranges do not overlap: each ends before the ones below it on the stack start. -/
def Apart (stack : List Pending) : Prop := stack.Pairwise fun p q => p.right ≤ q.left

/-- The parts of a range lie inside it, so they are apart from the ranges below it. -/
theorem Apart.treated {levels : Nat} {v items : Array α} {p : Pending} {rest : List Pending}
    {next : Work α} (h : Apart (p :: rest)) (hsane : Sane levels v items (p :: rest))
    (ht : Treated items p rest next) : Apart next.stack := by
  obtain ⟨hbelow, hrest⟩ := List.pairwise_cons.mp h
  obtain ⟨hle, hright⟩ := hsane.inside p List.mem_cons_self
  cases ht with
  | short _ => exact hrest
  | heap => exact hrest
  | level limit level _ hlevel =>
    refine List.pairwise_append.mpr
      ⟨pairwise_reverse_parts hlevel.boundary_le, hrest, fun q hq r hr => ?_⟩
    have hinside := inside_of_mem_parts hle hright hlevel (List.mem_reverse.mp hq)
    exact hinside.2.trans (hbelow r hr)

/-- What holds of the work stack before and after each iteration on an array of the given size. -/
structure Stacked (size limit : Nat) (stack : List Pending) : Prop where
  /-- Each waiting range lies inside the array. -/
  inside : ∀ p ∈ stack, p.left ≤ p.right ∧ p.right ≤ size
  /-- No two of them overlap. -/
  apart : Apart stack
  /-- The levels left to a range decrease with its position, counted from the bottom. -/
  levels : ∀ i p, stack.reverse[i]? = some p → p.limit + i ≤ limit
  /-- So there are not more of them than there are levels, and one. -/
  length_le : stack.length ≤ limit + 1

omit [Element α] in
theorem Sane.stacked {limit : Nat} {v items : Array α} {stack : List Pending}
    (h : Sane limit v items stack) (hapart : Apart stack) : Stacked v.size limit stack where
  inside p hp := h.perm.size_eq ▸ h.inside p hp
  apart := hapart
  levels _ _ hp := h.levels.limit_add_le hp
  length_le := h.levels.length_le

/-- After any number of iterations no push has failed, and the stack is as it should be. -/
theorem advance_stacked (lanes : Lanes) (v : Array α) {limit : Nat} (hlimit : limit < stackCapacity)
    (n : Nat) : ∃ work, advance lanes n ⟨v, [⟨0, v.size, limit⟩]⟩ = .ok work ∧
      work.items.Perm v ∧ Stacked v.size limit work.stack := by
  obtain ⟨work, hok, hsane, hapart⟩ := advance_induction lanes
    (P := fun items stack => Sane limit v items stack ∧ Apart stack)
    (fun items p rest ⟨hsane, hapart⟩ => by
      obtain ⟨next, hok, ht, hnext⟩ := hsane.step lanes hlimit
      exact ⟨next, hok, hnext, hapart.treated hsane ht⟩)
    n ⟨Sane.start, List.pairwise_singleton _ _⟩
  exact ⟨work, hok, hsane.perm, hsane.stacked hapart⟩

end Work

/-! ### The quicksort -/

/-- The loop of a quicksort on any array, unordered elements included: at every iteration the
waiting ranges lie apart inside the array, and their levels bound their number, so that no push
finds the work stack full. At the latest after `2 ^ (limit + 1) - 1` iterations none is waiting, and
the array is the result. The whole sort chooses at most 126 levels. -/
theorem quickSort_stacked (lanes : Lanes) (v : Array α) {limit : Nat} (hlimit : limit ≤ 129) :
    (∀ n, ∃ work, Work.advance lanes n ⟨v, [⟨0, v.size, limit⟩]⟩ = .ok work ∧
      work.items.Perm v ∧ Work.Stacked v.size limit work.stack ∧
      (2 ^ (limit + 1) ≤ n + 1 →
        work.stack = [] ∧ quickSort lanes v limit = .ok work.items)) ∧
    (v.size < 2 ^ 64 → 2 * v.size.log2 ≤ 126 ∧ ∃ sorted, sortArray lanes v = .ok sorted) := by
  refine ⟨fun n => ?_, fun hsize => ⟨?_, ?_⟩⟩
  · obtain ⟨work, hok, hperm, hstacked⟩ :=
      Work.advance_stacked lanes v (Nat.lt_succ_of_le hlimit) n
    refine ⟨work, hok, hperm, hstacked, fun hn => ?_⟩
    -- the whole array is all that waits at first
    have hweight : Work.weight [⟨0, v.size, limit⟩] = Pending.descendants limit := rfl
    rw [← Pending.descendants_add_one] at hn
    exact Work.run_of_advance hok (hweight ▸ Nat.le_of_succ_le_succ hn)
  · exact two_mul_log2_le hsize
  · obtain ⟨sorted, hok, -⟩ := sortArray_ok lanes hsize
    exact ⟨sorted, hok⟩

/-- Nine NaNs with all the levels there can be. -/
theorem quickSort_stacked_of_nans :
    let v : Array Binary32 := Array.replicate 9 .quietNaN
    (∃ work, Work.advance .avx2 100 ⟨v, [⟨0, v.size, 129⟩]⟩ = .ok work ∧
      Work.Stacked v.size 129 work.stack) ∧
    (∃ work, Work.advance .avx2 (2 ^ 130) ⟨v, [⟨0, v.size, 129⟩]⟩ = .ok work ∧
      work.stack = [] ∧ quickSort .avx2 v 129 = .ok work.items) ∧
    ∃ sorted, sortArray .avx2 v = .ok sorted := by
  intro v
  obtain ⟨hloop, hsort⟩ := quickSort_stacked .avx2 v (Nat.le_refl 129)
  obtain ⟨work, hok, -, hstacked, -⟩ := hloop 100
  obtain ⟨last, hlast, -, -, hend⟩ := hloop (2 ^ 130)
  exact ⟨⟨work, hok, hstacked⟩, ⟨last, hlast, hend (Nat.le_succ _)⟩, (hsort (by decide)).2⟩

end VectorizedSort
