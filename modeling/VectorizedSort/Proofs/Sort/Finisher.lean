import VectorizedSort.Proofs.Register.Checked
import VectorizedSort.Proofs.Sort.Blocks

/-! # The network as a finisher

What the exchange network does is said in two ways. Seen from its input, it sorts every array of
ordered elements that falls into blocks no longer than the number of its rounds, wherever the blocks
start. Seen from its steps, it is the plain network that puts one pair after another in order: the
chunks of a round repeat no pair, leave none out and reach beyond no end of the array. -/

namespace VectorizedSort

open Element

variable {α : Type} [Element α]

/-! ### Blocks -/

/-- The first of several blocks ends at a position behind which the others stand. -/
theorem Blocks.uncons {v b : Array α} {blocks : List (Array α)} {lo : Nat} (hlo : lo ≤ v.size)
    (h : Blocks (slice v lo v.size) (b :: blocks)) :
    lo + b.size ≤ v.size ∧ slice v lo (lo + b.size) = b ∧
      Blocks (slice v (lo + b.size) v.size) blocks ∧
      ∀ x ∈ b, ∀ y ∈ slice v (lo + b.size) v.size, le x y := by
  have hjoin := h.join
  rw [List.map_cons, List.flatten_cons] at hjoin
  have hlength : b.toList.length = b.size := Array.length_toList
  have hsize : lo + b.size ≤ v.size := by
    have htotal := congrArg List.length hjoin
    rw [List.length_append, hlength, length_toList_slice v (Nat.le_refl v.size)] at htotal
    omega
  -- the block is as long as the slice up to its end, and so is what stands behind
  rw [← slice_append_slice v (Nat.le_add_right lo b.size) hsize, Array.toList_append] at hjoin
  obtain ⟨hfirst, hrest⟩ := List.append_inj hjoin (by
    rw [hlength, length_toList_slice v hsize, Nat.add_sub_cancel_left])
  obtain ⟨hbelow, hordered⟩ := List.pairwise_cons.mp h.ordered
  refine ⟨hsize, (Array.toList_inj.mp hfirst).symm, ⟨hrest, hordered⟩, fun x hx y hy => ?_⟩
  rw [← Array.mem_toList_iff, ← hrest, List.mem_flatten] at hy
  obtain ⟨_, hmem, hy⟩ := hy
  obtain ⟨c, hc, rfl⟩ := List.mem_map.mp hmem
  exact hbelow c hc x hx y (Array.mem_toList_iff.mp hy)

/-- From a cut on, short blocks are short runs. -/
theorem Blocks.shortRun {n : Nat} {v : Array α} {blocks : List (Array α)} {lo : Nat}
    (h : Blocks (slice v lo v.size) blocks) (hlo : lo ≤ v.size) (hcut : IsCut v lo)
    (hshort : ∀ b ∈ blocks, b.size ≤ n) (i : Nat) (hlo_i : lo ≤ i) (hi : i < v.size) :
    ShortRun n v i := by
  induction blocks generalizing lo with
  | nil =>
    -- no block is left for the slot
    have hempty := congrArg List.length h.join
    rw [length_toList_slice v (Nat.le_refl v.size)] at hempty
    simp only [List.map_nil, List.flatten_nil, List.length_nil] at hempty
    omega
  | cons b blocks ih =>
    obtain ⟨hsize, hfirst, hrest, hle⟩ := h.uncons hlo
    have hend : IsCut v (lo + b.size) := by
      refine isCut_inside hcut (isCut_size v) (Nat.le_add_right lo b.size) hsize
        (Nat.le_refl v.size) fun x hx y hy => hle x ?_ y ?_
      · rw [contents, hfirst] at hx
        exact Array.mem_toList_iff.mp (Multiset.mem_coe.mp hx)
      · exact Array.mem_toList_iff.mp (Multiset.mem_coe.mp hy)
    by_cases hin : i < lo + b.size
    · have hb := hshort b List.mem_cons_self
      exact ⟨lo, lo + b.size, hcut, hend, hlo_i, hin, hsize, by omega⟩
    · exact ih hrest hsize hend (fun c hc => hshort c (List.mem_cons_of_mem b hc))
        (Nat.not_lt.mp hin)

/-- On every lane set, the network sorts integers or ordered floats that can be cut into consecutive
blocks of at most one element more than a short run has, at any positions, such that no element is
above an element of a later block. -/
theorem exchangeSort_blocks (lanes : Lanes) {v : Array α}
    (hv : (Element.kind α).isInteger ∨ AllOrdered v) {blocks : List (Array α)}
    (h : Blocks v blocks) (hshort : ∀ b ∈ blocks, b.size ≤ runThreshold + 1) :
    Nondecreasing (exchangeSort lanes v) ∧ (exchangeSort lanes v).Perm v := by
  have hv : AllOrdered v := hv.elim (fun hint => allOrdered_of_isInteger hint v) id
  rw [← slice_full v] at h
  refine ⟨nondecreasing_exchangeSort lanes hv fun i hi => ?_, exchangeSort_perm lanes v⟩
  exact h.shortRun (Nat.zero_le v.size) (isCut_zero v) hshort i (Nat.zero_le i) hi

/-- Nine floats in descending order between two blocks of one. -/
theorem exchangeSort_blocks_of_descending :
    let blocks : List (Array Binary32) :=
      [#[⟨0⟩], #[⟨9⟩, ⟨8⟩, ⟨7⟩, ⟨6⟩, ⟨5⟩, ⟨4⟩, ⟨3⟩, ⟨2⟩, ⟨1⟩], #[⟨9⟩]]
    let v : Array Binary32 := #[⟨0⟩, ⟨9⟩, ⟨8⟩, ⟨7⟩, ⟨6⟩, ⟨5⟩, ⟨4⟩, ⟨3⟩, ⟨2⟩, ⟨1⟩, ⟨9⟩]
    AllOrdered v ∧ Blocks v blocks ∧ (∀ b ∈ blocks, b.size ≤ runThreshold + 1) ∧
      Nondecreasing (exchangeSort .avx2 v) := by
  intro blocks v
  have hv : AllOrdered v := allOrdered_iff_not_isNaN.mpr (by decide)
  have hblocks : Blocks v blocks := ⟨rfl, by decide⟩
  have hshort : ∀ b ∈ blocks, b.size ≤ runThreshold + 1 := by decide
  exact ⟨hv, hblocks, hshort, (exchangeSort_blocks .avx2 (Or.inr hv) hblocks hshort).1⟩

/-! ### The plain network -/

/-- Put the elements of a slot and the next one in order: they stay if the first is strictly smaller
and change places otherwise. -/
def putInOrder (v : Array α) (j : Nat) : Array α :=
  match v[j]?, v[j + 1]? with
  | some a, some b => if lt a b then v else v.swapIfInBounds j (j + 1)
  | _, _ => v

@[simp] theorem size_putInOrder (v : Array α) (j : Nat) : (putInOrder v j).size = v.size := by
  unfold putInOrder
  split
  · split
    · rfl
    · exact Array.size_swapIfInBounds
  · rfl

/-- Put the pairs from slot `j` on in order, one after another, while both slots exist. -/
def plainRound (v : Array α) (j : Nat) : Array α :=
  if j + 1 < v.size then plainRound (putInOrder v j) (j + 2) else v
termination_by v.size - j
decreasing_by
  rw [size_putInOrder]
  omega

/-- Nine rounds of single pairs, which start at the first slot and at the second one by turns. -/
def plainNetwork (v : Array α) : Array α :=
  (List.range 9).foldl (fun v round => plainRound v (round % 2)) v

theorem putInOrder_eq {v : Array α} {j : Nat} (h : j + 1 < v.size) :
    putInOrder v j = Scalar.exchangePair v j := by
  have hj : j < v.size := Nat.lt_of_succ_lt h
  rw [Scalar.exchangePair_eq hj h, putInOrder, Array.getElem?_eq_getElem hj,
    Array.getElem?_eq_getElem h]

/-- A plain round has as many pairs as there are whole ones from its start on. -/
theorem plainRound_eq (v : Array α) (j : Nat) :
    plainRound v j = Scalar.exchangePairs v j ((v.size - j) / 2) := by
  fun_induction plainRound v j with
  | case1 v j h ih =>
    have hcount : (v.size - j) / 2 = (v.size - (j + 2)) / 2 + 1 := by omega
    rw [ih, size_putInOrder, putInOrder_eq h, hcount, Scalar.exchangePairs]
  | case2 v j h =>
    rw [Nat.div_eq_of_lt (by omega), Scalar.exchangePairs]

theorem plainNetwork_eq_rounds (v : Array α) : plainNetwork v = rounds v (runThreshold + 1) := by
  rw [plainNetwork, rounds]
  congr 1
  funext v round
  exact plainRound_eq v (round % 2)

/-! ### Without access to other slots -/

/-- A round in a memory that refuses. -/
def exchangeRound? (lanes : Lanes) (v : Array α) (pos remaining : Nat) : Option (Array α) :=
  if 2 ≤ remaining then
    let span := min remaining (2 * lanes.width)
    (lanes.exchangePairs? v pos (span / 2)).bind fun v =>
      exchangeRound? lanes v (pos + span) (remaining - span)
  else some v
termination_by remaining
decreasing_by
  have := lanes.width_pos
  omega

/-- All rounds of the network in a memory that refuses. -/
def exchangeSort? (lanes : Lanes) (v : Array α) : Option (Array α) :=
  (List.range 9).foldlM
    (fun v round => exchangeRound? lanes v (round % 2) (v.size - round % 2)) v

theorem exchangeRound?_eq_some (lanes : Lanes) {v : Array α} {pos remaining : Nat}
    (h : 2 ≤ remaining → pos + remaining ≤ v.size) :
    exchangeRound? lanes v pos remaining = some (exchangeRound lanes v pos remaining) := by
  fun_induction exchangeRound lanes v pos remaining with
  | case1 v pos remaining htwo span ih =>
    have hfits := h htwo
    rw [exchangeRound?, if_pos htwo]
    simp only
    rw [lanes.exchangePairs?_eq_some (by omega) (by omega), Option.bind_some]
    exact ih fun _ => by
      rw [Lanes.size_exchangePairs]
      omega
  | case2 v pos remaining hone => rw [exchangeRound?, if_neg hone]

theorem exchangeSort?_eq_some (lanes : Lanes) (v : Array α) :
    exchangeSort? lanes v = some (exchangeSort lanes v) := by
  have hround (v : Array α) (round : Nat) :
      exchangeRound? lanes v (round % 2) (v.size - round % 2) =
        some (exchangeRound lanes v (round % 2) (v.size - round % 2)) :=
    exchangeRound?_eq_some lanes fun htwo => by omega
  rw [exchangeSort?, exchangeSort]
  simp only [hround]
  exact List.foldlM_pure

/-- On every lane set and for all elements, the network leaves what the plain network leaves, and it
does so without reading or writing a slot outside of the array. -/
theorem exchangeSort_eq_plainNetwork (lanes : Lanes) (v : Array α) :
    exchangeSort lanes v = plainNetwork v ∧ exchangeSort? lanes v = some (plainNetwork v) := by
  have heq : exchangeSort lanes v = plainNetwork v := by
    rw [exchangeSort_eq_rounds, plainNetwork_eq_rounds]
  exact ⟨heq, heq ▸ exchangeSort?_eq_some lanes v⟩

end VectorizedSort
