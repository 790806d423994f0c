import Mathlib.Data.Nat.Find
import VectorizedSort.Proofs.Register.Exchange
import VectorizedSort.Proofs.Sort.Runs
import VectorizedSort.Sort.Network

/-! # The exchange network finishes short runs

A round of the network is one scalar pass over neighbouring pairs, for every lane set. That the
rounds sort short runs is shown one threshold at a time: elements at least the threshold are big,
and the number of big elements before each position follows a bound that tightens by one with every
two positions and rounds. -/

namespace VectorizedSort

open Element

variable {α : Type} [Element α]

/-! ### Rounds -/

/-- A chunk of a round never holds more pairs than a register has lanes. -/
theorem exchangeWithin_chunk (lanes : Lanes) (v : Array α) (pos remaining : Nat) :
    lanes.exchangeWithin v pos (min remaining (2 * lanes.width) / 2) =
      .ok (lanes.exchangePairs v pos (min remaining (2 * lanes.width) / 2)) := by
  rw [Lanes.exchangeWithin, if_pos (by omega)]

/-- However wide the registers are, a round puts the pairs in order one after another. -/
theorem exchangeRound_eq (lanes : Lanes) (v : Array α) (pos remaining : Nat) :
    exchangeRound lanes v pos remaining = Scalar.exchangePairs v pos (remaining / 2) := by
  fun_induction exchangeRound lanes v pos remaining with
  | case1 v pos remaining h span ih =>
    have hspan : span / 2 ≤ lanes.width := by omega
    rw [ih, lanes.exchangePairs_eq v pos hspan]
    -- only the last chunk may be short; before it a chunk holds whole pairs
    by_cases hlast : remaining ≤ 2 * lanes.width
    · have hall : span = remaining := Nat.min_eq_left hlast
      rw [hall, Nat.sub_self, Nat.zero_div, Scalar.exchangePairs]
    · have hfull : span = 2 * lanes.width := Nat.min_eq_right (by omega)
      have hhalf : remaining / 2 = span / 2 + (remaining - span) / 2 := by omega
      rw [hhalf, Scalar.exchangePairs_add]
      congr 2
      omega
  | case2 v pos remaining h =>
    rw [Nat.div_eq_of_lt (Nat.lt_of_not_le h), Scalar.exchangePairs]

/-- One round over a whole array. -/
def roundOf (v : Array α) (round : Nat) : Array α :=
  Scalar.exchangePairs v (round % 2) ((v.size - round % 2) / 2)

/-- The first rounds of the network. -/
def rounds (v : Array α) (count : Nat) : Array α := (List.range count).foldl roundOf v

theorem exchangeSort_eq_rounds (lanes : Lanes) (v : Array α) :
    exchangeSort lanes v = rounds v (runThreshold + 1) := by
  rw [exchangeSort, rounds]
  congr 1
  funext v round
  exact exchangeRound_eq lanes v (round % 2) (v.size - round % 2)

theorem rounds_succ (v : Array α) (count : Nat) :
    rounds v (count + 1) = roundOf (rounds v count) count := by
  rw [rounds, List.range_succ, List.foldl_append]
  rfl

theorem roundOf_perm (v : Array α) (round : Nat) : (roundOf v round).Perm v := by
  by_cases h : round % 2 ≤ v.size
  · exact Scalar.exchangePairs_perm (by omega)
  · rw [roundOf, Nat.sub_eq_zero_of_le (by omega), Nat.zero_div, Scalar.exchangePairs]

theorem rounds_perm (v : Array α) (count : Nat) : (rounds v count).Perm v := by
  induction count with
  | zero => exact .rfl
  | succ count ih =>
    rw [rounds_succ]
    exact (roundOf_perm _ count).trans ih

/-- The network rearranges, whatever the elements are. -/
theorem exchangeSort_perm (lanes : Lanes) (v : Array α) : (exchangeSort lanes v).Perm v := by
  rw [exchangeSort_eq_rounds]
  exact rounds_perm v (runThreshold + 1)

/-! ### Big elements before a position -/

section Threshold

variable (big : α → Prop) [DecidablePred big]

/-- The number of big elements before a position. -/
def bigBefore (v : Array α) (i : Nat) : Nat := (contents v 0 i).countP big

omit [Element α] in
theorem bigBefore_succ (v : Array α) {i : Nat} (h : i < v.size) :
    bigBefore big v (i + 1) = bigBefore big v i + if big v[i] then 1 else 0 := by
  rw [bigBefore, ← contents_add_contents v (Nat.zero_le i) (Nat.le_succ i), contents_succ v h,
    add_comm, Multiset.singleton_add, Multiset.countP_cons, bigBefore]

omit [Element α] in
/-- Behind a position there are at most as many big elements as slots. -/
theorem bigBefore_le_add (v : Array α) {i j : Nat} (hij : i ≤ j) (hj : j ≤ v.size) :
    bigBefore big v j ≤ bigBefore big v i + (j - i) := by
  rw [bigBefore, ← contents_add_contents v (Nat.zero_le i) hij, Multiset.countP_add,
    ← card_contents v hj]
  exact Nat.add_le_add_left (Multiset.countP_le_card _ _) _

variable {big} {v : Array α} (hv : AllOrdered v) (hup : ∀ a b, le a b → big a → big b)

include hv hup

/-- Putting one pair in order changes a single count: of the two elements, a big one only stands
first if both are big. -/
theorem bigBefore_exchangePair {pos i : Nat} (h : pos + 1 < v.size) (hi : i ≤ v.size) :
    bigBefore big (Scalar.exchangePair v pos) i =
      if i = pos + 1 then max (bigBefore big v pos) (bigBefore big v (pos + 2) - 1)
      else bigBefore big v i := by
  have hpos : pos < v.size := Nat.lt_of_succ_lt h
  have hfirst := bigBefore_succ big v hpos
  have hboth := bigBefore_succ big v h
  rw [Scalar.exchangePair_eq (Nat.lt_of_succ_lt h) h]
  by_cases hlt : lt v[pos] v[pos + 1]
  · -- a pair that is kept has a big second element if its first one is big
    have hab : big v[pos] → big v[pos + 1] := hup _ _ (le_of_lt hlt)
    rw [if_pos hlt]
    split
    · rename_i hat
      rw [hat, hboth, hfirst]
      by_cases ha : big v[pos]
      · rw [if_pos ha, if_pos (hab ha)]
        omega
      · rw [if_neg ha]
        split <;> omega
    · rfl
  · -- in a pair that is swapped it is the other way round
    have hle := (not_lt_iff_le (hv.getElem hpos) (hv.getElem h)).mp hlt
    have hba : big v[pos + 1] → big v[pos] := hup _ _ hle
    rw [if_neg hlt]
    split
    · rename_i hat
      have hsize : pos < (v.swapIfInBounds pos (pos + 1)).size := by
        rwa [Array.size_swapIfInBounds]
      have hmoved : (v.swapIfInBounds pos (pos + 1))[pos] = v[pos + 1] := by
        have hget := getElem?_swapIfInBounds hpos h pos
        rw [if_neg (Nat.succ_ne_self pos), if_pos rfl, Array.getElem?_eq_getElem hsize] at hget
        exact Option.some_inj.mp hget
      have hbelow : bigBefore big (v.swapIfInBounds pos (pos + 1)) pos = bigBefore big v pos := by
        rw [bigBefore, contents_swapIfInBounds_of_disjoint (Or.inr (Nat.le_refl pos))
          (Or.inr (Nat.le_succ pos)), bigBefore]
      rw [hat, bigBefore_succ big _ hsize, hmoved, hbelow, hboth, hfirst]
      by_cases hb : big v[pos + 1]
      · rw [if_pos hb, if_pos (hba hb)]
        omega
      · rw [if_neg hb]
        split <;> omega
    · rw [bigBefore, bigBefore]
      by_cases hbelow : i ≤ pos
      · rw [contents_swapIfInBounds_of_disjoint (Or.inr hbelow) (Or.inr (Nat.le_succ_of_le hbelow))]
      · rw [contents_swapIfInBounds_of_inside (by omega) (by omega) hi]

theorem bigBefore_exchangePairs {pos count i : Nat} (h : pos + 2 * count ≤ v.size)
    (hi : i ≤ v.size) :
    bigBefore big (Scalar.exchangePairs v pos count) i =
      if pos < i ∧ i < pos + 2 * count ∧ (i - pos) % 2 = 1 then
        max (bigBefore big v (i - 1)) (bigBefore big v (i + 1) - 1)
      else bigBefore big v i := by
  induction count generalizing v pos with
  | zero =>
    rw [if_neg (by omega), Scalar.exchangePairs]
  | succ count ih =>
    have hperm := Scalar.exchangePair_perm (by omega : pos + 1 < v.size)
    have hpair := fun k => bigBefore_exchangePair hv hup (by omega : pos + 1 < v.size) (i := k)
    have hsize := hperm.size_eq
    rw [Scalar.exchangePairs, ih (hv.of_perm hperm) (by omega) (by omega), hpair i hi]
    -- the count inside the first pair changes now, those inside later pairs see no other change
    by_cases hfirst : i = pos + 1
    · rw [if_neg (by omega), if_pos hfirst, if_pos (by omega), hfirst]
      rfl
    · rw [if_neg hfirst]
      by_cases hlater : pos + 2 < i ∧ i < pos + 2 + 2 * count ∧ (i - (pos + 2)) % 2 = 1
      · rw [if_pos hlater, if_pos (by omega), hpair (i - 1) (by omega), hpair (i + 1) (by omega),
          if_neg (by omega), if_neg (by omega)]
      · rw [if_neg hlater, if_neg (by omega)]

/-- A round changes the counts before the second element of each of its pairs. -/
theorem bigBefore_roundOf (round : Nat) {i : Nat} (hi : i ≤ v.size) :
    bigBefore big (roundOf v round) i =
      if 0 < i ∧ i < v.size ∧ i % 2 ≠ round % 2 then
        max (bigBefore big v (i - 1)) (bigBefore big v (i + 1) - 1)
      else bigBefore big v i := by
  by_cases hstart : round % 2 ≤ v.size
  · rw [roundOf, bigBefore_exchangePairs hv hup (by omega) hi]
    by_cases hactive : 0 < i ∧ i < v.size ∧ i % 2 ≠ round % 2
    · rw [if_pos hactive, if_pos (by omega)]
    · rw [if_neg hactive, if_neg (by omega)]
  · rw [roundOf, Nat.sub_eq_zero_of_le (by omega), Nat.zero_div, Scalar.exchangePairs,
      if_neg (by omega)]

end Threshold

/-! ### How the counts settle -/

/-- The counts of big elements in an array of `size` elements after a number of rounds. At first
only the slots in `[lo, hi)` may hold elements on the wrong side of `start`, where the big elements
begin in the end. Inside this window a count is as it has to be or is bounded by a line that moves
down with the rounds; a count that the next round changes may lie above the line by a half. -/
structure Settling (size lo hi start round : Nat) (count : Nat → Nat) : Prop where
  before : ∀ i ≤ lo, count i = 0
  behind : ∀ i, hi ≤ i → i ≤ size → count i + start = i
  inside : ∀ i, lo < i → i < hi → count i = 0 ∨ count i + start ≤ i ∨
    2 * count i + start + lo + round ≤ hi + i + if i % 2 ≠ round % 2 then 1 else 0

/-- At the ends of the window and where the next round changes nothing, no count lies above the
line. -/
theorem Settling.line {size lo hi start round k : Nat} {count : Nat → Nat}
    (h : Settling size lo hi start round count) (hhi : hi ≤ size) (hk_lo : lo ≤ k) (hk_hi : k ≤ hi)
    (hk : k % 2 = round % 2) :
    count k = 0 ∨ count k + start ≤ k ∨ 2 * count k + start + lo + round ≤ hi + k := by
  rcases Nat.eq_or_lt_of_le hk_lo with rfl | hlt
  · exact Or.inl (h.before _ (Nat.le_refl _))
  · rcases Nat.eq_or_lt_of_le hk_hi with rfl | hlt'
    · exact Or.inr (Or.inl (Nat.le_of_eq (h.behind _ (Nat.le_refl _) hhi)))
    · have hinside := h.inside k hlt hlt'
      rwa [if_neg (not_not_intro hk), Nat.add_zero] at hinside

/-- One more round tightens the bound. -/
theorem Settling.round {size lo hi start round : Nat} {count count' : Nat → Nat}
    (h : Settling size lo hi start round count) (hlo : lo ≤ hi) (hhi : hi ≤ size)
    (hmono : ∀ i < size, count i ≤ count (i + 1) ∧ count (i + 1) ≤ count i + 1)
    (hround : ∀ i ≤ size, count' i =
      if 0 < i ∧ i < size ∧ i % 2 ≠ round % 2 then max (count (i - 1)) (count (i + 1) - 1)
      else count i) :
    Settling size lo hi start (round + 1) count' := by
  constructor
  case before =>
    intro i hi_lo
    rw [hround i (by omega)]
    have hat := h.before i hi_lo
    have hprev := h.before (i - 1) (by omega)
    split
    · have hnext := hmono i (by omega)
      omega
    · exact hat
  case behind =>
    intro i hi_hi hi_size
    rw [hround i hi_size]
    have hat := h.behind i hi_hi hi_size
    split
    · have hnext := h.behind (i + 1) (by omega) (by omega)
      have hprev := hmono (i - 1) (by omega)
      rw [Nat.sub_add_cancel (by omega)] at hprev
      omega
    · exact hat
  case inside =>
    intro i hi_lo hi_hi
    rw [hround i (by omega)]
    split
    · rename_i hactive
      -- both neighbours of a changed count are on or below the line, and one of them bounds it
      have hprev := h.line (k := i - 1) hhi (by omega) (by omega) (by omega)
      have hnext := h.line (k := i + 1) hhi (by omega) (by omega) (by omega)
      rcases Nat.le_total (count (i + 1) - 1) (count (i - 1)) with hle | hle
      · rw [Nat.max_eq_left hle]
        rcases hprev with hzero | hdone | hprev
        · exact Or.inl hzero
        · exact Or.inr (Or.inl (by omega))
        · exact Or.inr (Or.inr (by omega))
      · rw [Nat.max_eq_right hle]
        rcases hnext with hzero | hdone | hnext
        · exact Or.inl (by omega)
        · by_cases hone : count (i + 1) = 0
          · exact Or.inl (by omega)
          · exact Or.inr (Or.inl (by omega))
        · by_cases hone : count (i + 1) = 0
          · exact Or.inl (by omega)
          · exact Or.inr (Or.inr (by omega))
    · -- a count that stays has been on the line and may lie a half above the next one
      rcases h.inside i hi_lo hi_hi with hzero | hdone | hline
      · exact Or.inl hzero
      · exact Or.inr (Or.inl hdone)
      · rw [if_neg (by omega)] at hline
        rw [if_pos (by omega)]
        exact Or.inr (Or.inr (by omega))

/-- After as many rounds as the window is long, all counts are as they have to be. -/
theorem Settling.settled {size lo hi start round : Nat} {count : Nat → Nat}
    (h : Settling size lo hi start round count) (hround : hi ≤ lo + round) {i : Nat}
    (hi_size : i ≤ size) : count i = 0 ∨ count i + start ≤ i := by
  by_cases hlo : i ≤ lo
  · exact Or.inl (h.before i hlo)
  · by_cases hhi : hi ≤ i
    · exact Or.inr (Nat.le_of_eq (h.behind i hhi hi_size))
    · rcases h.inside i (by omega) (by omega) with hzero | hdone | hline
      · exact Or.inl hzero
      · exact Or.inr hdone
      · split at hline
        · by_cases hone : count i = 0
          · exact Or.inl hone
          · exact Or.inr (by omega)
        · exact Or.inr (by omega)

section Threshold

variable {big : α → Prop} [DecidablePred big] {v : Array α} {lo hi : Nat}

omit [Element α] in
/-- Before the first round only the window bounds the counts. -/
theorem settling_start (hlo : lo ≤ hi) (hhi : hi ≤ v.size)
    (hbefore : ∀ x ∈ contents v 0 lo, ¬ big x) (hbehind : ∀ x ∈ contents v hi v.size, big x) :
    Settling v.size lo hi (hi - bigBefore big v hi) 0 (bigBefore big v) := by
  have hnone (i : Nat) (hi_lo : i ≤ lo) : bigBefore big v i = 0 := by
    rw [bigBefore, Multiset.countP_eq_zero]
    intro x hx
    refine hbefore x ?_
    rw [← contents_add_contents v (Nat.zero_le i) hi_lo]
    exact Multiset.mem_add.mpr (Or.inl hx)
  have hsome := bigBefore_le_add big v hlo hhi
  rw [hnone lo (Nat.le_refl lo), Nat.zero_add] at hsome
  constructor
  · exact hnone
  · intro i hi_hi hi_size
    have hall : (contents v hi i).countP big = i - hi := by
      rw [← card_contents v hi_size, Multiset.countP_eq_card]
      intro x hx
      refine hbehind x ?_
      rw [← contents_add_contents v hi_hi hi_size]
      exact Multiset.mem_add.mpr (Or.inl hx)
    rw [bigBefore, bigBefore, ← contents_add_contents v (Nat.zero_le hi) hi_hi,
      Multiset.countP_add, hall, ← bigBefore]
    omega
  · intro i hi_lo hi_hi
    have hleft := bigBefore_le_add big v (Nat.le_of_lt hi_lo) (by omega)
    have hright : bigBefore big v i ≤ bigBefore big v hi := by
      rw [bigBefore, bigBefore, ← contents_add_contents v (Nat.zero_le i) (Nat.le_of_lt hi_hi),
        Multiset.countP_add]
      exact Nat.le_add_right _ _
    rw [hnone lo (Nat.le_refl lo)] at hleft
    exact Or.inr (Or.inr (by omega))

variable (hv : AllOrdered v) (hup : ∀ a b, le a b → big a → big b)

include hv hup

theorem settling_rounds (hlo : lo ≤ hi) (hhi : hi ≤ v.size)
    (hbefore : ∀ x ∈ contents v 0 lo, ¬ big x) (hbehind : ∀ x ∈ contents v hi v.size, big x)
    (count : Nat) :
    Settling v.size lo hi (hi - bigBefore big v hi) count (bigBefore big (rounds v count)) := by
  induction count with
  | zero => exact settling_start hlo hhi hbefore hbehind
  | succ count ih =>
    have hperm := rounds_perm v count
    refine ih.round hlo hhi ?_ ?_
    · intro i hi_size
      rw [bigBefore_succ big _ (by rwa [hperm.size_eq])]
      split <;> omega
    · intro i hi_size
      rw [rounds_succ, bigBefore_roundOf (hv.of_perm hperm) hup count (by rwa [hperm.size_eq]),
        hperm.size_eq]

/-- After as many rounds as the window is long, no big element stands before one that is
not. -/
theorem big_rounds_succ (hlo : lo ≤ hi) (hhi : hi ≤ v.size)
    (hbefore : ∀ x ∈ contents v 0 lo, ¬ big x) (hbehind : ∀ x ∈ contents v hi v.size, big x)
    {count : Nat} (hcount : hi ≤ lo + count) (i : Nat) (h : i + 1 < (rounds v count).size)
    (hbig : big (rounds v count)[i]) : big (rounds v count)[i + 1] := by
  have hsettling := settling_rounds hv hup hlo hhi hbefore hbehind count
  have hsize := (rounds_perm v count).size_eq
  have hat := bigBefore_succ big _ (Nat.lt_of_succ_lt h)
  have hnext := bigBefore_succ big _ h
  have htotal := hsettling.behind v.size hhi (Nat.le_refl _)
  have hrest := bigBefore_le_add big (rounds v count)
    (show i + 1 + 1 ≤ (rounds v count).size from h) (Nat.le_refl _)
  rw [if_pos hbig] at hat
  rw [hsize] at h hrest
  by_contra hsmall
  rw [if_neg hsmall] at hnext
  -- with a small element behind it, the big one would be counted too far to the left
  rcases hsettling.settled hcount (by omega : i + 1 ≤ v.size) with hzero | hdone
  · omega
  · omega

end Threshold

/-! ### The network -/

/-- Outside of the short run that holds the first big element, the array is separated. -/
theorem exists_window {big : α → Prop} (hup : ∀ a b, le a b → big a → big b) {n : Nat}
    {v : Array α} (hruns : ∀ i < v.size, ShortRun n v i) :
    ∃ lo hi, lo ≤ hi ∧ hi ≤ v.size ∧ hi ≤ lo + n ∧ (∀ x ∈ contents v 0 lo, ¬ big x) ∧
      ∀ x ∈ contents v hi v.size, big x := by
  classical
  by_cases hsome : ∃ i, ∃ h : i < v.size, big v[i]
  · -- nothing before the first big element is big, and everything behind its run is
    obtain ⟨hfirst, hbig⟩ := Nat.find_spec hsome
    have hleast := fun k => Nat.find_min hsome (m := k)
    generalize Nat.find hsome = first at hfirst hbig hleast
    obtain ⟨lo, hi, hlo_cut, hhi_cut, hlo, hhi, hsize, hlen⟩ := hruns first hfirst
    refine ⟨lo, hi, by omega, hsize, hlen, ?_, ?_⟩
    · rw [forall_mem_contents]
      intro i hi_size _ hi_lo hbig_i
      exact hleast i (by omega) ⟨hi_size, hbig_i⟩
    · rw [forall_mem_contents]
      intro i hi_size hi_hi _
      exact hup _ _ (hhi_cut.le hfirst hi_size hhi hi_hi) hbig
  · -- without big elements the window is empty
    refine ⟨v.size, v.size, Nat.le_refl _, Nat.le_refl _, Nat.le_add_right _ _, ?_, ?_⟩
    · rw [forall_mem_contents]
      intro i hi_size _ _ hbig
      exact hsome ⟨i, hi_size, hbig⟩
    · rw [contents_self]
      exact fun x hx => absurd hx (Multiset.notMem_zero x)

/-- The network sorts every array of ordered elements that is made of short runs. -/
theorem nondecreasing_exchangeSort (lanes : Lanes) {v : Array α} (hv : AllOrdered v)
    (hruns : ∀ i < v.size, ShortRun (runThreshold + 1) v i) :
    Nondecreasing (exchangeSort lanes v) := by
  rw [exchangeSort_eq_rounds]
  intro i hi
  -- the threshold is the element whose place is in question
  have hordered := hv.of_perm (rounds_perm v (runThreshold + 1))
  have hup (a b : α) (hab : le a b) (hbig : le (rounds v (runThreshold + 1))[i] a) :
      le (rounds v (runThreshold + 1))[i] b := le_trans hbig hab
  obtain ⟨lo, top, hlo, htop, hlen, hbefore, hbehind⟩ := exists_window hup hruns
  exact big_rounds_succ hv hup hlo htop hbefore hbehind hlen i hi
    (le_refl (hordered.getElem _))

end VectorizedSort
